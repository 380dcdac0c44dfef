import PqcapReader.CopySink
import PqcapReader.CaptureFile
import PqcapReader.RoundTrip

/-!
# The index that COPY writes

Whatever threads sink which chunks in which order, the metadata rows and the packets in
the capture stay aligned: each iteration of the sink appends one of each. The scan of the
finished capture therefore finds one location for each metadata row, and the rows of the
embedded file point at the packets of the rows that were sunk.
-/

namespace PqcapReader

open ByteCodec Effects Interleaving

/-- What a relation between two lists says about an element of the first. -/
theorem exists_getElem?_of_forall₂ {A B : Type} {related : A → B → Prop} {left : List A}
    {right : List B} (h : List.Forall₂ related left right) {i : ℕ} {a : A}
    (hleft : left[i]? = some a) : ∃ b, right[i]? = some b ∧ related a b := by
  induction h generalizing i with
  | nil =>
    rw [List.getElem?_nil] at hleft
    contradiction
  | @cons a' b' left right hhead htail ih =>
    cases i with
    | zero =>
      rw [List.getElem?_cons_zero, Option.some.injEq] at hleft
      exact ⟨b', rfl, hleft ▸ hhead⟩
    | succ i =>
      rw [List.getElem?_cons_succ] at hleft ⊢
      exact ih hleft

/-- Appending to a file moves no packet. -/
theorem LocatesPacket.append {file payload : Bytes} {loc : PacketLocation}
    (h : LocatesPacket file loc payload) (more : Bytes) :
    LocatesPacket (file ++ more) loc payload := by
  obtain ⟨hsize, hend, hslice⟩ := h
  refine ⟨hsize, ?_, ?_⟩
  · rw [List.length_append]
    exact Nat.le_add_right_of_le hend
  · rw [slice_append_left _ _ _ _ (by omega), hslice]

section Alignment

variable {light : LightPcapNg} {cfg : PqcapCopyBindData}

/-- The bytes of a metadata row that reach the capture: its header counts them in 32 bits. -/
def PacketRowData.writtenBytes (data : PacketRowData) : Bytes :=
  data.packetBytes.take (data.packetBytes.length % 2 ^ 32)

/-- They are the bytes that its call hands over. -/
theorem handedBytes_writeCall (cfg : PqcapCopyBindData) (data : PacketRowData) :
    handedBytes (writeCall cfg data) = data.writtenBytes := by
  change data.packetBytes.take (UInt32.ofNat data.packetBytes.length).toNat = _
  rw [UInt32.toNat_ofNat']
  rfl

/-- Below four gigabytes nothing is left out. -/
theorem PacketRowData.writtenBytes_eq {data : PacketRowData}
    (h : data.packetBytes.length < 2 ^ 32) : data.writtenBytes = data.packetBytes := by
  rw [writtenBytes, Nat.mod_eq_of_lt h, List.take_length]

/-- The capture holds exactly the packets of the metadata rows, in their order. -/
def Aligned (content : Bytes) (rows : List PacketRowData) : Prop :=
  ∃ blocks, content = encodeBlocks blocks ∧
    packetPayloads blocks = rows.map PacketRowData.writtenBytes

/-- One write keeps the capture aligned with the rows. -/
theorem Aligned.write {writer : light.Writer} {rows : List PacketRowData} {data : PacketRowData}
    (haligned : Aligned (light.content writer) rows) {calls : List (LightPacketHeader × Bytes)}
    (hlight : light.WritesBlocks cfg.linktype calls) (hcall : writeCall cfg data ∈ calls) :
    Aligned (light.content (light.writePacket writer (packetHeader cfg data) data.packetBytes))
      (rows ++ [data]) := by
  obtain ⟨blocks, hcontent, hpayloads⟩ := haligned
  obtain ⟨others, packet, hpacket, hwritten⟩ := hlight.written _ hcall writer
  refine ⟨blocks ++ (others.map Block.other ++ [.enhanced packet]), ?_, ?_⟩
  · rw [encodeBlocks_append, ← hcontent]
    exact hwritten
  · rw [handedBytes_writeCall] at hpacket
    have hlast : packetPayloads [.enhanced packet] = [data.writtenBytes] :=
      congrArg (fun p => [p]) hpacket
    rw [packetPayloads_append, packetPayloads_append, packetPayloads_others, hlast, hpayloads,
      List.map_append]
    rfl

/-- All writes of a run keep the capture aligned with the rows. -/
theorem Aligned.writeRows {writer : light.Writer} {rows found : List PacketRowData}
    (haligned : Aligned (light.content writer) rows) {calls : List (LightPacketHeader × Bytes)}
    (hlight : light.WritesBlocks cfg.linktype calls) (hcalls : ∀ data ∈ found,
      writeCall cfg data ∈ calls) :
    Aligned (light.content (writeRows cfg light writer found)) (rows ++ found) := by
  induction found generalizing writer rows with
  | nil =>
    rw [List.append_nil]
    exact haligned
  | cons data found ih =>
    have hnext := haligned.write hlight (hcalls data List.mem_cons_self)
    have hrest := ih hnext fun other hother => hcalls other (List.mem_cons_of_mem _ hother)
    rw [List.append_assoc] at hrest
    exact hrest

/-- The scan of an aligned capture finds the packet of each metadata row, in order. -/
theorem Aligned.located {content : Bytes} {rows : List PacketRowData}
    (haligned : Aligned content rows) (hfile : FitsFile content) :
    List.Forall₂ (fun data loc => LocatesPacket content loc data.writtenBytes) rows
        (scanPacketLocations content) ∧
      rows.length ≤ content.length := by
  obtain ⟨blocks, rfl, hpayloads⟩ := haligned
  have hlocated := packetLocations_locate [] blocks hfile
  rw [hpayloads] at hlocated
  rw [scan_encodeBlocks blocks hfile]
  have hlength := hlocated.length_eq
  rw [List.length_map] at hlength
  have hbound := packetLocations_length_le 0 blocks
  refine ⟨?_, hlength ▸ hbound⟩
  exact (List.forall₂_map_right_iff.mp hlocated).flip

end Alignment

section Runs

variable {ι : Type} [DecidableEq ι] {db : Database} {light : LightPcapNg}
  {cfg : PqcapCopyBindData} {queues : ι → List (List Row)} {trace : List (ι × List Row)}
  {state : PqcapCopyGlobalState light}

/-- The input rows of a run, in the order in which they were sunk. -/
def sunkRows (trace : List (ι × List Row)) : List Row := (Runs.arguments trace).flatten

/-- The rows of each thread are sunk in the thread's order, none lost or repeated. -/
theorem sunkRows_of_thread
    (hrun : Runs (pcapngWriteSink db cfg light) queues (pcapngWriteInitializeGlobal cfg light) trace
      state) (thread : ι) :
    sunkRows (trace.filter fun call => call.1 = thread) = (queues thread).flatten :=
  congrArg List.flatten (hrun.thread_calls thread)

/-- Every run of the sinks yields the metadata rows of the sunk rows, in their order, and a
writer that was given their packets. -/
theorem run_rows
    (hrun : Runs (pcapngWriteSink db cfg light) queues (pcapngWriteInitializeGlobal cfg light) trace
      state) :
    List.Forall₂ (fun row data => sinkRow db cfg row = .ok data) (sunkRows trace) state.rows ∧
      state.writer = writeRows cfg light (light.openWrite cfg.linktype) state.rows := by
  have hfold := hrun.foldlM
  rw [sinkChunks_eq, sinkSteps_eq_ok_iff] at hfold
  obtain ⟨found, hfound, rfl⟩ := hfold
  exact ⟨hfound, rfl⟩

/-- After every run the capture is aligned with the metadata rows. -/
theorem run_aligned
    (hrun : Runs (pcapngWriteSink db cfg light) queues (pcapngWriteInitializeGlobal cfg light) trace
      state)
    (hlight : light.WritesBlocks cfg.linktype (state.rows.map (writeCall cfg))) :
    Aligned (light.content state.writer) state.rows := by
  obtain ⟨others, hopened⟩ := hlight.opened
  have hstart : Aligned (light.content (light.openWrite cfg.linktype)) [] :=
    ⟨others.map Block.other, hopened, packetPayloads_others others⟩
  rw [(run_rows hrun).2]
  exact hstart.writeRows hlight fun data hdata => List.mem_map_of_mem hdata

end Runs

/-- The temporary file of a capture is another file. -/
theorem tempParquetPath_ne (path : Bytes) : tempParquetPath path ≠ path := by
  intro h
  have hlength := congrArg List.length h
  rw [tempParquetPath, List.length_append] at hlength
  have hsuffix : (ascii ".tmp.meta.parquet").length = 17 := rfl
  omega

section Finalize

variable {faults : Schedule} (hfaults : NoFaults faults) {db : Database}

include hfaults

/-- The scan of a file that exists. -/
theorem exec_scanPacketLocationsAt {path content : Bytes} {world : World}
    (hcontent : world.files path = some content) :
    ∃ clock, exec (scanPacketLocationsAt faults path) world =
      (.ok (scanPacketLocations content), ⟨world.files, clock⟩) := by
  obtain ⟨clock, hread⟩ := exec_freadAll hfaults content
    (.ioException (ascii "Failed reading output file for offset scan"))
    ⟨world.files, world.clock + 1⟩
  refine ⟨clock, ?_⟩
  rw [scanPacketLocationsAt, exec_bind, exec_fopenRead hfaults]
  simp only [hcontent, exec_bind, hread, exec_pure]

/-- Writing the metadata of as many rows as a capture has packets, with texts that the database
takes, and embedding it leaves the bundle in the capture's place. -/
theorem exec_indexCapture (hdb : db.WritesParquet) {path capture : Bytes} {world : World}
    (hcapture : world.files path = some capture) {rows : List PacketRowData}
    (hlength : rows.length = (scanPacketLocations capture).length) {defaultLinktype : UInt16}
    (haccepts : db.Accepts (indexRows rows (scanPacketLocations capture) defaultLinktype))
    (address : ℕ) :
    ∃ parquet after, parquet ≠ [] ∧
      db.readParquet parquet =
          some (indexRows rows (scanPacketLocations capture) defaultLinktype) ∧
        after.files path = some (pqcapBundle capture parquet) ∧
          exec (do
            writeMetadataParquetViaSQL faults db (tempParquetPath path) rows
              (scanPacketLocations capture) defaultLinktype address
            embedParquetInPqcap faults path (tempParquetPath path)
            remove faults (tempParquetPath path)) world = (.ok (), after) := by
  obtain ⟨parquet, clock, hsome, hread, hwrite⟩ := exec_writeMetadata hfaults hdb
    (tempParquetPath path) hlength haccepts address world
  have hne := tempParquetPath_ne path
  have hcapture' : (⟨Function.update world.files (tempParquetPath path) (some parquet), clock⟩ :
      World).files path = some capture :=
    (Function.update_of_ne hne.symm _ _).trans hcapture
  have hparquet : (⟨Function.update world.files (tempParquetPath path) (some parquet), clock⟩ :
      World).files (tempParquetPath path) = some parquet := Function.update_self _ _ _
  obtain ⟨clock', hembed⟩ := exec_embedParquetInPqcap hfaults hcapture' hparquet
  refine ⟨parquet, ⟨Function.update (Function.update (Function.update world.files
    (tempParquetPath path) (some parquet)) path (some (pqcapBundle capture parquet)))
      (tempParquetPath path) none, clock' + 1⟩, hsome, hread, ?_, ?_⟩
  · exact (Function.update_of_ne hne.symm _ _).trans (Function.update_self _ _ _)
  · rw [exec_bind_ok _ hwrite, exec_bind_ok _ hembed, exec_remove hfaults]

/-- The three return only so: with as many rows as packets, and texts that the database takes. -/
theorem exec_indexCapture_success (hdb : db.WritesParquet) {path capture : Bytes}
    {world after : World} (hcapture : world.files path = some capture) {rows : List PacketRowData}
    {defaultLinktype : UInt16} {address : ℕ}
    (hsuccess : exec (do
      writeMetadataParquetViaSQL faults db (tempParquetPath path) rows
        (scanPacketLocations capture) defaultLinktype address
      embedParquetInPqcap faults path (tempParquetPath path)
      remove faults (tempParquetPath path)) world = (.ok (), after)) :
    ∃ parquet, parquet ≠ [] ∧
      db.readParquet parquet =
          some (indexRows rows (scanPacketLocations capture) defaultLinktype) ∧
        after.files path = some (pqcapBundle capture parquet) := by
  obtain ⟨_, _, hwritten, -⟩ := exec_bind_eq_ok hsuccess
  obtain ⟨hlength, haccepts⟩ := accepts_of_writeMetadata hfaults hdb hwritten
  obtain ⟨parquet, after', hsome, hread, hfile, hwhole⟩ :=
    exec_indexCapture hfaults hdb hcapture hlength haccepts address
  rw [hsuccess, Prod.mk.injEq] at hwhole
  exact ⟨parquet, hsome, hread, hwhole.2 ▸ hfile⟩

/-- In mode pqcap, finalizing closes the capture and scans it, and then indexes it. -/
theorem exec_finalize_indexes {light : LightPcapNg} {cfg : PqcapCopyBindData}
    (hmode : cfg.mode = ascii "pqcap") (state : PqcapCopyGlobalState light) (outputPath : Bytes)
    (address : ℕ) (world : World) :
    ∃ scanned, scanned.files outputPath = some (light.content state.writer) ∧
      exec (pcapngWriteFinalize faults db cfg light outputPath state address) world =
        exec (do
          writeMetadataParquetViaSQL faults db (tempParquetPath outputPath) state.rows
            (scanPacketLocations (light.content state.writer)) cfg.linktype address
          embedParquetInPqcap faults outputPath (tempParquetPath outputPath)
          remove faults (tempParquetPath outputPath)) scanned := by
  obtain ⟨closed, hclosed, hstored⟩ : ∃ closed,
      exec (fcloseWritten faults outputPath (light.content state.writer))
          (world.store outputPath (light.content state.writer)) = (.ok (), closed) ∧
        closed.files outputPath = some (light.content state.writer) := by
    refine ⟨⟨Function.update world.files outputPath (some (light.content state.writer)),
      world.clock + 1⟩, ?_, Function.update_self _ _ _⟩
    rw [fcloseWritten, exec_bind, exec_tick hfaults]
    rfl
  have hresolved : resolveCapturePath db closed outputPath = outputPath := by
    rw [resolveCapturePath, hstored, Option.isSome_some, if_pos rfl]
  obtain ⟨clock, hscan⟩ := exec_scanPacketLocationsAt hfaults hstored
  refine ⟨⟨closed.files, clock⟩, hstored, ?_⟩
  rw [pcapngWriteFinalize, exec_bind, exec_modify]
  simp only
  rw [exec_bind_ok _ hclosed, exec_ite, if_neg (not_not.mpr hmode), exec_bind, exec_get]
  simp only [hresolved]
  rw [exec_bind_ok _ hscan]

/-- In mode pqcap, finalizing leaves the bundle of the closed capture and the metadata of its
rows in the output file, when the capture has as many packets as there are rows, and the database
takes their texts. -/
theorem exec_pcapngWriteFinalize (hdb : db.WritesParquet) {light : LightPcapNg}
    {cfg : PqcapCopyBindData} (hmode : cfg.mode = ascii "pqcap")
    {state : PqcapCopyGlobalState light} {capture : Bytes}
    (hcapture : light.content state.writer = capture)
    (hlength : state.rows.length = (scanPacketLocations capture).length)
    (haccepts : db.Accepts (indexRows state.rows (scanPacketLocations capture) cfg.linktype))
    (outputPath : Bytes) (address : ℕ) (world : World) :
    ∃ parquet after, parquet ≠ [] ∧
      db.readParquet parquet =
          some (indexRows state.rows (scanPacketLocations capture) cfg.linktype) ∧
        after.files outputPath = some (pqcapBundle capture parquet) ∧
          exec (pcapngWriteFinalize faults db cfg light outputPath state address) world =
            (.ok (), after) := by
  obtain ⟨scanned, hscanned, hexec⟩ :=
    exec_finalize_indexes hfaults hmode state outputPath address world
  rw [hcapture] at hscanned hexec
  obtain ⟨parquet, after, hsome, hread, hfile, hindex⟩ :=
    exec_indexCapture hfaults hdb hscanned hlength haccepts address
  exact ⟨parquet, after, hsome, hread, hfile, hexec.trans hindex⟩

/-- In mode pqcap, finalizing returns only with a bundle of the closed capture and the metadata of
its rows in the output file. -/
theorem exec_pcapngWriteFinalize_success (hdb : db.WritesParquet) {light : LightPcapNg}
    {cfg : PqcapCopyBindData} (hmode : cfg.mode = ascii "pqcap")
    {state : PqcapCopyGlobalState light} {outputPath : Bytes} {address : ℕ} {world after : World}
    (hsuccess : exec (pcapngWriteFinalize faults db cfg light outputPath state address) world =
      (.ok (), after)) :
    ∃ parquet, parquet ≠ [] ∧
      db.readParquet parquet = some (indexRows state.rows
        (scanPacketLocations (light.content state.writer)) cfg.linktype) ∧
      after.files outputPath = some (pqcapBundle (light.content state.writer) parquet) := by
  obtain ⟨scanned, hscanned, hexec⟩ :=
    exec_finalize_indexes hfaults hmode state outputPath address world
  exact exec_indexCapture_success hfaults hdb hscanned (hexec.symm.trans hsuccess)

end Finalize

section Copy

variable {ι : Type} [DecidableEq ι] {db : Database} {light : LightPcapNg}
  {cfg : PqcapCopyBindData} {queues : ι → List (List Row)} {trace : List (ι × List Row)}
  {state : PqcapCopyGlobalState light} {faults : Schedule}

/-- After a run in mode pqcap, finalizing leaves the bundle of the capture and the metadata of the
run's rows, of which there are as many as locations. -/
theorem exec_finalize_of_run (hmode : cfg.mode = ascii "pqcap")
    (hrun : Runs (pcapngWriteSink db cfg light) queues (pcapngWriteInitializeGlobal cfg light)
      trace state)
    (hlight : light.WritesBlocks cfg.linktype (state.rows.map (writeCall cfg)))
    (hdb : db.WritesParquet) (haccepts : ∀ data ∈ state.rows, data.Accepted db)
    (hfaults : NoFaults faults) (hfile : FitsFile (light.content state.writer))
    (outputPath : Bytes) (address : ℕ) (world : World) :
    state.rows.length = (scanPacketLocations (light.content state.writer)).length ∧
      ∃ after parquet,
        exec (pcapngWriteFinalize faults db cfg light outputPath state address) world =
            (.ok (), after) ∧
          after.files outputPath = some (pqcapBundle (light.content state.writer) parquet) ∧
            db.readParquet parquet = some (indexRows state.rows
              (scanPacketLocations (light.content state.writer)) cfg.linktype) := by
  have hlength := ((run_aligned hrun hlight).located hfile).1.length_eq
  obtain ⟨parquet, after, -, hread, hafter, hexec⟩ :=
    exec_pcapngWriteFinalize hfaults hdb hmode rfl hlength
      (accepts_indexRows cfg.linktype hdb haccepts) outputPath address world
  exact ⟨hlength, after, parquet, hexec, hafter, hread⟩

/-- The index has one row for each of the rows. The `i`-th one has frame number `i + 1`, is made
of the `i`-th row, and points at the bytes of that row's payload in the file. -/
def PointsAtPayloads (db : Database) (cfg : PqcapCopyBindData) (rows : List Row) (file : Bytes)
    (index : List IndexRow) : Prop :=
  index.length = rows.length ∧
    ∀ i row, rows[i]? = some row → ∃ data loc indexed, sinkRow db cfg row = .ok data ∧
      index[i]? = some indexed ∧ indexed = indexRow i data loc cfg.linktype ∧
        indexed.frameNumber.toNat = i + 1 ∧
          slice file indexed.offset.toNat indexed.size.toNat = payloadBytes cfg row

/-- What the capture holds of the database's text of a row's payload. -/
def writtenPayload (db : Database) (cfg : PqcapCopyBindData) (row : Row) : Bytes :=
  (payloadText db cfg row).take ((payloadText db cfg row).length % 2 ^ 32)

/-- After a run the rows of the index are made of the sunk rows, and point at what the capture
holds of their payloads, also behind blocks that are appended. -/
theorem run_indexed
    (hrun : Runs (pcapngWriteSink db cfg light) queues (pcapngWriteInitializeGlobal cfg light)
      trace state)
    (hlight : light.WritesBlocks cfg.linktype (state.rows.map (writeCall cfg)))
    (hfile : FitsFile (light.content state.writer)) (more : Bytes) {i : ℕ} {row : Row}
    (hrow : (sunkRows trace)[i]? = some row) :
    ∃ data loc, sinkRow db cfg row = .ok data ∧
      (indexRows state.rows (scanPacketLocations (light.content state.writer)) cfg.linktype)[i]? =
          some (indexRow i data loc cfg.linktype) ∧
        (indexRow i data loc cfg.linktype).frameNumber.toNat = i + 1 ∧
          slice (light.content state.writer ++ more) loc.offset.toNat loc.size.toNat =
            writtenPayload db cfg row := by
  obtain ⟨hlocated, hcount⟩ := (run_aligned hrun hlight).located hfile
  obtain ⟨data, hdata, hsunk⟩ := exists_getElem?_of_forall₂ (run_rows hrun).1 hrow
  obtain ⟨loc, hloc, hpacket⟩ := exists_getElem?_of_forall₂ hlocated hdata
  have hi : i < state.rows.length := (List.getElem?_eq_some_iff.mp hdata).1
  have hbound : (light.content state.writer).length < 2 ^ 63 := hfile
  have hwritten : data.writtenBytes = writtenPayload db cfg row := by
    rw [PacketRowData.writtenBytes, sinkRow_packetBytes db cfg hsunk]
    rfl
  exact ⟨data, loc, hsunk, indexRows_getElem? cfg.linktype hdata hloc,
    uint64_ofNat_toNat (by omega), (hpacket.append more).2.2.trans hwritten⟩

/-- In mode pqcap, however the threads interleave, each thread's rows are sunk in its order, and there
are as many as locations; finalizing succeeds when the database takes their texts. The finished
file's index points at the rows' payloads exactly when the database's text of every sunk payload,
as far as 32 bits count it, is that payload. -/
theorem copy_indexes_every_packet_iff (hmode : cfg.mode = ascii "pqcap")
    (hrun : Runs (pcapngWriteSink db cfg light) queues (pcapngWriteInitializeGlobal cfg light)
      trace state)
    (hlight : light.WritesBlocks cfg.linktype (state.rows.map (writeCall cfg)))
    (hdb : db.WritesParquet) (hfaults : NoFaults faults)
    (hfile : FitsFile (light.content state.writer)) (outputPath : Bytes) (address : ℕ)
    (world : World) :
    (∀ thread, sunkRows (trace.filter fun call => call.1 = thread) = (queues thread).flatten) ∧
      state.rows.length = (scanPacketLocations (light.content state.writer)).length ∧
      ((∀ data ∈ state.rows, data.Accepted db) → ∃ after,
        exec (pcapngWriteFinalize faults db cfg light outputPath state address) world =
          (.ok (), after)) ∧
      ∀ after, exec (pcapngWriteFinalize faults db cfg light outputPath state address) world =
          (.ok (), after) →
        ∃ file parquet index, after.files outputPath = some file ∧
          (FitsFile file → embeddedParquet file = some parquet) ∧
          db.readParquet parquet = some index ∧ index.length = (sunkRows trace).length ∧
          (PointsAtPayloads db cfg (sunkRows trace) file index ↔
            ∀ row ∈ sunkRows trace, writtenPayload db cfg row = payloadBytes cfg row) := by
  have hlength := ((run_aligned hrun hlight).located hfile).1.length_eq
  refine ⟨sunkRows_of_thread hrun, hlength, fun haccepts => ?_, fun after hsuccess => ?_⟩
  · obtain ⟨-, after, -, hexec, -⟩ :=
      exec_finalize_of_run hmode hrun hlight hdb haccepts hfaults hfile outputPath address world
    exact ⟨after, hexec⟩
  obtain ⟨parquet, -, hread, hafter⟩ := exec_pcapngWriteFinalize_success hfaults hdb hmode hsuccess
  have hcount : (indexRows state.rows (scanPacketLocations (light.content state.writer))
      cfg.linktype).length = (sunkRows trace).length := by
    rw [indexRows_length cfg.linktype hlength, (run_rows hrun).1.length_eq]
  refine ⟨_, parquet, _, hafter, fun hfits => embeddedParquet_pqcapBundle hfits,
    hread, hcount, ?_, fun hpayloads => ⟨hcount, ?_⟩⟩
  · rintro ⟨-, hindexed⟩ row hmem
    obtain ⟨i, hrow⟩ := List.mem_iff_getElem?.mp hmem
    obtain ⟨data, loc, indexed, -, hfound, rfl, -, hslice⟩ := hindexed i row hrow
    obtain ⟨data', loc', -, hfound', -, hslice'⟩ := run_indexed hrun hlight hfile
      (customBlock parquet ++ footerBlock (light.content state.writer).length parquet.length) hrow
    rw [hfound', Option.some.injEq] at hfound
    rw [← hfound, pqcapBundle_eq_append] at hslice
    exact hslice'.symm.trans hslice
  · intro i row hrow
    obtain ⟨data, loc, hsunk, hfound, hframe, hslice⟩ := run_indexed hrun hlight hfile
      (customBlock parquet ++ footerBlock (light.content state.writer).length parquet.length) hrow
    refine ⟨data, loc, _, hsunk, hfound, rfl, hframe, ?_⟩
    rw [pqcapBundle_eq_append]
    exact hslice.trans (hpayloads row (List.mem_of_getElem? hrow))

end Copy

/-- The columns timestamp, original length, and payload. -/
def sampleBind : PqcapCopyBindData :=
  { idxTimestampMicros := some 0, idxOrigLen := some 1, idxPayload := some 2 }

/-- Two threads with three chunks; one payload is empty. -/
def sampleQueues : Bool → List (List Row)
  | false => [[[.bigint 7, .ubigint 60, .blob (ascii "first")], [.bigint 8, .ubigint 0, .blob []]],
      [[.bigint 9, .ubigint 4, .blob (ascii "last")]]]
  | true => [[[.bigint 3, .ubigint 5, .blob (ascii "other")]]]

/-- The second thread's chunk is sunk between the two of the first thread. -/
def sampleTrace : List (Bool × List Row) :=
  [(false, (sampleQueues false).getD 0 []), (true, (sampleQueues true).getD 0 []),
    (false, (sampleQueues false).getD 1 [])]

/-- The metadata rows of the sample run. -/
def sampleRows : List PacketRowData :=
  [{ tsMicros := 7, origLen := 60, capturedLength := 5, packetBytes := ascii "first" },
    { tsMicros := 8 },
    { tsMicros := 3, origLen := 5, capturedLength := 5, packetBytes := ascii "other" },
    { tsMicros := 9, origLen := 4, capturedLength := 4, packetBytes := ascii "last" }]

/-- The state after the first metadata rows of the sample run. -/
def sampleState (count : ℕ) : PqcapCopyGlobalState blockFiles :=
  ⟨writeRows sampleBind blockFiles (blockFiles.openWrite 1) (sampleRows.take count),
    sampleRows.take count⟩

/-- A chunk of the sample run adds its metadata rows. -/
theorem sink_sampleState (input : List Row) (first count : ℕ)
    (hrows : List.Forall₂ (fun row data => sinkRow memoryDatabase sampleBind row = .ok data) input
      ((sampleRows.drop first).take count)) :
    pcapngWriteSink memoryDatabase sampleBind blockFiles (sampleState first) input =
      .ok (sampleState (first + count)) := by
  refine (sinkSteps_eq_ok_iff memoryDatabase sampleBind blockFiles input _ _).mpr
    ⟨_, hrows, ?_⟩
  simp only [sampleState, writeRows, List.take_add, List.foldl_append]

/-- The sample run is a run. -/
theorem runs_sampleTrace : Runs (pcapngWriteSink memoryDatabase sampleBind blockFiles) sampleQueues
    (pcapngWriteInitializeGlobal sampleBind blockFiles) sampleTrace (sampleState 4) := by
  have hfirst := sink_sampleState ((sampleQueues false).getD 0 []) 0 2
    (.cons rfl (.cons rfl .nil))
  have hother := sink_sampleState ((sampleQueues true).getD 0 []) 2 1 (.cons rfl .nil)
  have hlast := sink_sampleState ((sampleQueues false).getD 1 []) 3 1 (.cons rfl .nil)
  refine .call rfl hfirst (.call rfl hother (.call rfl hlast (.done fun thread => ?_)))
  cases thread with
  | false => rfl
  | true => rfl

theorem sampleRows_written : blockFiles.WritesBlocks sampleBind.linktype
    ((sampleState 4).rows.map (writeCall sampleBind)) :=
  blockFiles_writesBlocks 1 (by decide +kernel)

theorem sampleRows_accepted : ∀ data ∈ sampleRows, data.Accepted memoryDatabase := by decide

/-- The sample run's bundle points at all four payloads. -/
theorem copy_indexes_sampleTrace :
    (∀ thread, sunkRows (sampleTrace.filter fun call => call.1 = thread) =
        (sampleQueues thread).flatten) ∧
      ∃ after file parquet index,
        exec (pcapngWriteFinalize (fun _ => .succeeds) memoryDatabase sampleBind blockFiles
            (ascii "out.pqcapng") (sampleState 4) 0) ⟨fun _ => none, 0⟩ = (.ok (), after) ∧
          after.files (ascii "out.pqcapng") = some file ∧
          (FitsFile file → embeddedParquet file = some parquet) ∧
          memoryDatabase.readParquet parquet = some index ∧ index.length = 4 ∧
          PointsAtPayloads memoryDatabase sampleBind (sunkRows sampleTrace) file index := by
  obtain ⟨hthreads, -, hreturns, hleaves⟩ := copy_indexes_every_packet_iff rfl runs_sampleTrace
    sampleRows_written memoryDatabase_writesParquet (fun _ => rfl) (by decide +kernel)
    (ascii "out.pqcapng") 0 ⟨fun _ => none, 0⟩
  obtain ⟨after, hexec⟩ := hreturns sampleRows_accepted
  obtain ⟨file, parquet, index, hfile, hembedded, hread, hlength, hpoints⟩ := hleaves after hexec
  have hpayloads : ∀ row ∈ sunkRows sampleTrace,
      writtenPayload memoryDatabase sampleBind row = payloadBytes sampleBind row := by
    decide +kernel
  exact ⟨hthreads, after, file, parquet, index, hexec, hfile, hembedded, hread, hlength,
    hpoints.mpr hpayloads⟩

/-- A packet whose payload is one byte that is not printable. -/
def unprintableRow : Row := [.bigint 1, .ubigint 1, .blob [0]]

/-- The metadata row of that packet. -/
def unprintableData : PacketRowData :=
  { tsMicros := 1, origLen := 1, capturedLength := 4, packetBytes := ascii "\\x00" }

/-- The state after that row is sunk. -/
def unprintableState : PqcapCopyGlobalState blockFiles :=
  ⟨writeRows sampleBind blockFiles (blockFiles.openWrite 1) [unprintableData], [unprintableData]⟩

/-- One thread sinks it. -/
theorem runs_unprintable : Runs (pcapngWriteSink memoryDatabase sampleBind blockFiles)
    (fun _ : Unit => [[unprintableRow]]) (pcapngWriteInitializeGlobal sampleBind blockFiles)
    [((), [unprintableRow])] unprintableState :=
  .call rfl ((sinkSteps_eq_ok_iff memoryDatabase sampleBind blockFiles _ _ _).mpr
    ⟨[unprintableData], .cons rfl .nil, rfl⟩) (.done fun _ => rfl)

/-- The file holds the four characters of the byte's text. -/
theorem copy_indexes_text :
    ¬ ∀ (faults : Schedule) (db : Database) (light : LightPcapNg) (cfg : PqcapCopyBindData)
      (queues : Unit → List (List Row)) (trace : List (Unit × List Row))
      (state : PqcapCopyGlobalState light) (outputPath : Bytes) (address : ℕ) (world after : World),
        cfg.mode = ascii "pqcap" →
        Runs (pcapngWriteSink db cfg light) queues (pcapngWriteInitializeGlobal cfg light) trace
          state →
        light.WritesBlocks cfg.linktype (state.rows.map (writeCall cfg)) →
        db.WritesParquet → NoFaults faults → FitsFile (light.content state.writer) →
        exec (pcapngWriteFinalize faults db cfg light outputPath state address) world =
          (.ok (), after) →
        ∃ file parquet index, after.files outputPath = some file ∧
          (FitsFile file → embeddedParquet file = some parquet) ∧
            db.readParquet parquet = some index ∧
              PointsAtPayloads db cfg (sunkRows trace) file index := by
  intro h
  have hmode : sampleBind.mode = ascii "pqcap" := rfl
  have hfaults : NoFaults fun _ => Outcome.succeeds := fun _ => rfl
  have hlight : blockFiles.WritesBlocks sampleBind.linktype
      (unprintableState.rows.map (writeCall sampleBind)) :=
    blockFiles_writesBlocks 1 (by decide +kernel)
  have haccepts : ∀ data ∈ unprintableState.rows, data.Accepted memoryDatabase := by decide
  have hcapture : FitsFile (blockFiles.content unprintableState.writer) := by decide +kernel
  obtain ⟨-, after, parquet', hexec, hfile', hread'⟩ := exec_finalize_of_run hmode
    runs_unprintable hlight memoryDatabase_writesParquet haccepts hfaults hcapture
    (ascii "out.pqcapng") 0 ⟨fun _ => none, 0⟩
  obtain ⟨file, parquet, index, hfile, hembedded, hread, hindexed⟩ := h _ memoryDatabase blockFiles
    sampleBind _ _ _ (ascii "out.pqcapng") 0 ⟨fun _ => none, 0⟩ after hmode runs_unprintable hlight
    memoryDatabase_writesParquet hfaults hcapture hexec
  obtain rfl : pqcapBundle (blockFiles.content unprintableState.writer) parquet' = file :=
    Option.some.inj (hfile'.symm.trans hfile)
  have hfits : FitsFile (pqcapBundle (blockFiles.content unprintableState.writer) parquet') := by
    have hwhole : ((exec (pcapngWriteFinalize (fun _ => .succeeds) memoryDatabase sampleBind
        blockFiles (ascii "out.pqcapng") unprintableState 0) ⟨fun _ => none, 0⟩).2.files
          (ascii "out.pqcapng")).all (fun content => decide (FitsFile content)) = true := by
      decide +kernel
    rw [hexec, hfile'] at hwhole
    exact of_decide_eq_true hwhole
  obtain rfl : parquet' = parquet :=
    Option.some.inj ((embeddedParquet_pqcapBundle hfits).symm.trans (hembedded hfits))
  obtain rfl : _ = index := Option.some.inj (hread'.symm.trans hread)
  obtain ⟨data, loc, indexed, -, hfound, rfl, -, hslice⟩ := hindexed.2 0 unprintableRow rfl
  obtain ⟨data', loc', -, hfound', -, hslice'⟩ := run_indexed runs_unprintable hlight hcapture
    (customBlock parquet' ++
      footerBlock (blockFiles.content unprintableState.writer).length parquet'.length)
    (show (sunkRows [((), [unprintableRow])])[0]? = some unprintableRow from rfl)
  rw [hfound', Option.some.injEq] at hfound
  rw [← hfound, pqcapBundle_eq_append] at hslice
  exact absurd (hslice'.symm.trans hslice) (by decide)

end PqcapReader
