import PqcapReader.Retry
import PqcapReader.CrossPlane
import PqcapReader.CopyFaults
import PqcapReader.ReadPqcap

/-!
# The catalog of captures

What the extension is for can be said without blocks, footers, and Parquet files: there are
captures under paths, each a list of packets with cells and a payload, and a capture may be
indexed. `pqcap_embed_index` marks a capture as indexed, COPY in mode pqcap puts an indexed
capture in a place, and a query on an index yields the payloads of the packets whose cells
it selects. The files of a store follow this catalog, statement by statement.
-/

namespace PqcapReader

open ByteCodec Effects Interleaving Simulation

/-- The cells that a packet shows, and its payload. -/
abbrev Shown := Row × Bytes

/-- A capture in the catalog. -/
structure Holding where
  packets : List Shown
  indexed : Bool
  deriving DecidableEq

abbrev Catalog := Bytes → Option Holding

/-- What is asked of a store: a capture arrives or is removed, or a statement is executed. -/
inductive StoreRequest (light : LightPcapNg)
  | arrive (path content : Bytes)
  | discard (path : Bytes)
  | embedIndex (pathIn : Bytes) (address : ℕ)
  | copy (cfg : PqcapCopyBindData) (rows : List Row) (state : PqcapCopyGlobalState light)
      (outputPath : Bytes) (address : ℕ)
  | select (path : Bytes) (keep : Row → Bool)

/-- What the catalog answers. -/
inductive CatalogAnswer
  | done
  | counted (count : ℕ)
  | found (payloads : List Bytes)
  | refused
  deriving DecidableEq

/-- What a packet of the packet table shows. -/
def shownPacket (packet : LightPacket) : Shown := (packetView (packetRow packet), packet.bytes)

/-- What a metadata row of a COPY shows with a payload. -/
def shownData (cfg : PqcapCopyBindData) (data : PacketRowData) (payload : Bytes) : Shown :=
  (indexView (indexRow 0 data ⟨0, UInt64.ofNat payload.length⟩ cfg.linktype), payload)

/-- What a row of a COPY shows: the cells that the sink makes of it, and the bytes of its BLOB. -/
def shownRow (db : Database) (cfg : PqcapCopyBindData) (row : Row) : Shown :=
  match sinkRow db cfg row with
  | .ok data => shownData cfg data (payloadBytes cfg row)
  | .error _ => ([], payloadBytes cfg row)

namespace Catalog

variable (catalog : Catalog)

/-- A holding at a path, and none at the path's temporary file. -/
def put (path : Bytes) (holding : Holding) : Catalog :=
  Function.update (Function.update catalog path (some holding)) (tempParquetPath path) none

/-- A capture is indexed once. -/
def embedIndex (path : Bytes) : CatalogAnswer × Catalog :=
  match catalog path with
  | some ⟨packets, false⟩ => (.counted packets.length, catalog.put path ⟨packets, true⟩)
  | _ => (.refused, catalog)

/-- Only indexed captures are queried. -/
def select (path : Bytes) (keep : Row → Bool) : CatalogAnswer :=
  match catalog path with
  | some ⟨packets, true⟩ =>
    .found ((packets.filter fun shown => keep shown.1).map fun shown => shown.2)
  | _ => .refused

/-- The catalog's answers. -/
def answer (db : Database) {light : LightPcapNg} (catalog : Catalog) :
    StoreRequest light → CatalogAnswer × Catalog
  | .arrive path content => (.done, Function.update catalog path
      (some ⟨((light.packets content).getD []).map shownPacket, false⟩))
  | .discard path => (.done, Function.update catalog path none)
  | .embedIndex pathIn _ => catalog.embedIndex (db.expandPath pathIn)
  | .copy cfg rows _ outputPath _ =>
    (.done, catalog.put outputPath ⟨rows.map (shownRow db cfg), true⟩)
  | .select path keep => (catalog.select path keep, catalog)

end Catalog

/-- What a store replies. -/
inductive StoreReply
  | done
  | counted (result : Except Exception Int64)
  | copied (result : Except Exception Unit)
  | found (result : Except Exception (Option (List Bytes)))

section Store

variable (faults : Schedule) (db : Database) (fs : World → VirtualFileSystem) {light : LightPcapNg}
  (reader : Client FileRequest FileReply (Option (List IndexRow)))

/-- A query selects rows of `read_pqcap`, and reads the ranges of the file that they give. -/
def selectPayloads (world : World) (path : Bytes) (keep : Row → Bool) :
    Except Exception (Option (List Bytes)) := do
  match ← readPqcap (fs world) reader path, world.files path with
  | [some index], some file =>
    .ok (some ((index.filter fun row => keep (indexView row)).map fun row => row.extract file))
  | _, _ => .ok none

/-- The store's replies. -/
def perform (world : World) : StoreRequest light → StoreReply × World
  | .arrive path content => (.done, world.store path content)
  | .discard path => (.done, ⟨Function.update world.files path none, world.clock⟩)
  | .embedIndex pathIn address =>
    let run := exec (embedPqcapIndex faults fs db light pathIn address) world
    (.counted run.1, run.2)
  | .copy cfg _ state outputPath address =>
    let run := exec (pcapngWriteFinalize faults db cfg light outputPath state address) world
    (.copied run.1, run.2)
  | .select path keep => (.found (selectPayloads fs reader world path keep), world)

end Store

/-- The reply is what the answer says. -/
inductive ReplyAgrees : StoreReply → CatalogAnswer → Prop
  | done : ReplyAgrees .done .done
  | copied : ReplyAgrees (.copied (.ok ())) .done
  | counted (count : ℕ) : ReplyAgrees (.counted (.ok (Int64.ofNat count))) (.counted count)
  | found (payloads : List Bytes) : ReplyAgrees (.found (.ok (some payloads))) (.found payloads)
  | notCounted (error : Exception) : ReplyAgrees (.counted (.error error)) .refused
  | notFound (error : Exception) : ReplyAgrees (.found (.error error)) .refused

/-- The file system opens the files of the world for seeking, and nothing else. -/
structure OpensFiles (fs : World → VirtualFileSystem) : Prop where
  stored : ∀ (world : World) (path content : Bytes), FitsFile content →
    world.files path = some content → ∃ handle, fs world path fileFlagsRead = .ok (some handle) ∧
      handle.canSeek = true ∧ handle.Holds content
  missing : ∀ (world : World) (path : Bytes), world.files path = none →
    ∃ error, fs world path fileFlagsRead = .error error

theorem OpensFiles.serves {fs : World → VirtualFileSystem} (h : OpensFiles fs) : ServesFiles fs := by
  intro world path content hfile hcontent
  obtain ⟨handle, hopen, -, hholds⟩ := h.stored world path content hfile hcontent
  exact ⟨handle, hopen, hholds⟩

/-- The reader reads the rows of a Parquet file, whatever bytes around them the file has. -/
def ReadsParquet (db : Database) (reader : Client FileRequest FileReply (Option (List IndexRow))) :
    Prop :=
  ∀ parquet index, FitsFile parquet → db.readParquet parquet = some index →
    reader.Asks MemoryFile.answer FileRequest.Sized ⟨parquet, 0⟩ ∧
      (reader.consult MemoryFile.answer ⟨parquet, 0⟩).1 = some index

/-- A capture that the packet table shows and that can be indexed: pcapng blocks without a footer,
whose packets the library delivers with link types other than 0 and comments that the database
takes. -/
structure PlainCapture (db : Database) (light : LightPcapNg) (content : Bytes)
    (packets : List LightPacket) : Prop where
  fits : FitsFile content
  blocks : ∃ blocks, content = encodeBlocks blocks
  plain : endsWithFooter content = false
  format : ∀ path, detectCaptureFormat path (some content) = .ok .pcapng
  delivers : light.DeliversPayloads content
  reads : light.packets content = some packets
  links : ∀ packet ∈ packets, packet.header.dataLink ≠ 0
  comments : ∀ packet ∈ packets, db.acceptsText packet.header.commentText = true

/-- The file behind a holding. -/
inductive Backs (db : Database) (light : LightPcapNg) : Option Bytes → Option Holding → Prop
  | absent : Backs db light none none
  | plain {content : Bytes} {packets : List LightPacket}
      (hplain : PlainCapture db light content packets) :
      Backs db light (some content) (some ⟨packets.map shownPacket, false⟩)
  | indexed {capture parquet : Bytes} {index : List IndexRow} {packets : List Shown}
      (hfits : FitsFile (pqcapBundle capture parquet)) (hparquet : parquet ≠ [])
      (hread : db.readParquet parquet = some index)
      (hshown : (index.map fun row => (indexView row, row.extract (pqcapBundle capture parquet))) =
        packets) :
      Backs db light (some (pqcapBundle capture parquet)) (some ⟨packets, true⟩)

/-- The files of the world stand behind the catalog. -/
def BacksCatalog (db : Database) (light : LightPcapNg) (world : World) (catalog : Catalog) : Prop :=
  ∀ path, Backs db light (world.files path) (catalog path)

/-- The database's text of a row's payload is the payload, and 32 bits count its bytes. -/
structure PlainPayload (db : Database) (cfg : PqcapCopyBindData) (row : Row) : Prop where
  text : payloadText db cfg row = payloadBytes cfg row
  size : (payloadBytes cfg row).length < 2 ^ 32

/-- Captures that arrive are plain, and a COPY in mode pqcap ends a run of the sink over rows with
plain payloads, and texts that the database takes. -/
def ValidRequest (db : Database) (light : LightPcapNg) (ι : Type) [DecidableEq ι] :
    StoreRequest light → Prop
  | .arrive _ content => ∃ packets, PlainCapture db light content packets
  | .copy cfg rows state _ _ => cfg.mode = ascii "pqcap" ∧
      light.WritesBlocks cfg.linktype (state.rows.map (writeCall cfg)) ∧
      FitsFile (light.content state.writer) ∧ (∀ data ∈ state.rows, data.Accepted db) ∧
      (∀ row ∈ rows, PlainPayload db cfg row) ∧
      ∃ (queues : ι → List (List Row)) (trace : List (ι × List Row)), sunkRows trace = rows ∧
        Runs (pcapngWriteSink db cfg light) queues (pcapngWriteInitializeGlobal cfg light) trace state
  | _ => True

/-- The file that a statement has written fits. -/
def WrittenFits (db : Database) {light : LightPcapNg} : StoreRequest light → World → Prop
  | .embedIndex pathIn _, world => ∀ content ∈ world.files (db.expandPath pathIn), FitsFile content
  | .copy _ _ _ outputPath _, world => ∀ content ∈ world.files outputPath, FitsFile content
  | _, _ => True

instance (db : Database) {light : LightPcapNg} (request : StoreRequest light) (world : World) :
    Decidable (WrittenFits db request world) := by
  unfold WrittenFits
  split <;> infer_instance

section Related

variable {db : Database} {light : LightPcapNg} {world : World} {catalog : Catalog}

/-- Files and catalog change together at one path. -/
theorem BacksCatalog.update (h : BacksCatalog db light world catalog) {path : Bytes}
    {file : Option Bytes} {holding : Option Holding} (hbacks : Backs db light file holding)
    (clock : ℕ) :
    BacksCatalog db light ⟨Function.update world.files path file, clock⟩
      (Function.update catalog path holding) := by
  intro other
  change Backs db light (Function.update world.files path file other) _
  by_cases heq : other = path
  · rw [heq, Function.update_self, Function.update_self]
    exact hbacks
  · rw [Function.update_of_ne heq, Function.update_of_ne heq]
    exact h other

/-- A capture that is indexed in its place. -/
theorem BacksCatalog.put (h : BacksCatalog db light world catalog) {path capture parquet : Bytes}
    {holding : Holding}
    (hbacks : Backs db light (some (pqcapBundle capture parquet)) (some holding)) (clock : ℕ) :
    BacksCatalog db light ⟨indexedFiles world.files path capture parquet, clock⟩
      (catalog.put path holding) :=
  (h.update hbacks clock).update .absent clock

end Related

/-- Two lists whose elements show the same keys and the same values show the same pairs. -/
theorem map_pair_eq_of_maps {A B C D : Type} {left : List A} {right : List B} {key : A → C}
    {key' : B → C} {value : A → D} {value' : B → D} (hkeys : left.map key = right.map key')
    (hvalues : left.map value = right.map value') :
    (left.map fun a => (key a, value a)) = right.map fun b => (key' b, value' b) := by
  rw [← List.zip_map', ← List.zip_map', hkeys, hvalues]

section Statements

variable {faults : Schedule} {db : Database} {fs : World → VirtualFileSystem} {light : LightPcapNg}
  {world : World}

/-- Without faults, indexing a plain capture leaves a file that stands behind the indexed capture. -/
theorem exec_embed_backs (hfaults : NoFaults faults) (hdb : db.WritesParquet) (hcasts : db.Casts)
    (hfs : ServesFiles fs) {pathIn content : Bytes} {packets : List LightPacket}
    (hplain : PlainCapture db light content packets)
    (hcontent : world.files (db.expandPath pathIn) = some content) (address : ℕ) :
    ∃ parquet clock,
      exec (embedPqcapIndex faults fs db light pathIn address) world =
          (.ok (Int64.ofNat packets.length),
            ⟨indexedFiles world.files (db.expandPath pathIn) content parquet, clock⟩) ∧
        (FitsFile (pqcapBundle content parquet) →
          Backs db light (some (pqcapBundle content parquet))
            (some ⟨packets.map shownPacket, true⟩)) := by
  obtain ⟨hfile, ⟨blocks, rfl⟩, hfooter, hformat, hdelivers, hreads, hlinks, hcomments⟩ := hplain
  obtain ⟨hcount, hbound⟩ := packets_counted hfile hdelivers hreads
  have hindexable := indexable_of_packets hdb hcasts hcontent hfooter
    (capturePackets_pcapng (hformat (db.expandPath pathIn)) hreads) hcount hcomments
  obtain ⟨parquet, clock, hsome, hread, hexec⟩ := exec_embedPqcapIndex_files hfaults hdb hfs hfile
    hcontent hindexable address
  rw [List.length_map] at hexec
  refine ⟨parquet, clock, hexec, fun hfits => .indexed hfits hsome hread ?_⟩
  have hlocated := located_in_bundle hfile parquet
  rw [← hdelivers blocks packets rfl hreads] at hlocated
  have hstands := standsFor_indexRows hlocated hbound hlinks
    (defaultLinktype (packets.map packetFeatures))
  refine map_pair_eq_of_maps (hstands.cells.trans ?_) hstands.payloads
  rw [List.map_map]
  rfl

/-- What an index row of a COPY shows in a file that has a payload at the row's location. -/
theorem shown_indexRow {cfg : PqcapCopyBindData} {file payload : Bytes} {data : PacketRowData}
    {loc : PacketLocation} (h : LocatesPacket file loc payload) (i : ℕ) :
    (indexView (indexRow i data loc cfg.linktype), (indexRow i data loc cfg.linktype).extract file) =
      shownData cfg data payload := by
  obtain ⟨hsize, -, hslice⟩ := h
  have hword : loc.size = UInt64.ofNat payload.length := by
    rw [← hsize, UInt64.ofNat_toNat]
  refine Prod.ext ?_ hslice
  change indexView (indexRow i data loc cfg.linktype) =
    indexView (indexRow 0 data ⟨0, UInt64.ofNat payload.length⟩ cfg.linktype)
  rw [← hword]
  rfl

/-- What is written of a row with a plain payload is the payload. -/
theorem PlainPayload.shown {cfg : PqcapCopyBindData} {row : Row} {data : PacketRowData}
    (h : PlainPayload db cfg row) (hsunk : sinkRow db cfg row = .ok data) :
    shownData cfg data data.writtenBytes = shownRow db cfg row := by
  have hbytes : data.packetBytes = payloadBytes cfg row :=
    (sinkRow_packetBytes db cfg hsunk).trans h.text
  rw [shownRow, hsunk, data.writtenBytes_eq (hbytes ▸ h.size), hbytes]

/-- The metadata rows show what the rows do that were sunk. -/
theorem map_shownRow {cfg : PqcapCopyBindData} {rows : List Row} {metadata : List PacketRowData}
    (hsunk : List.Forall₂ (fun row data => sinkRow db cfg row = .ok data) rows metadata)
    (hplain : ∀ row ∈ rows, PlainPayload db cfg row) :
    (metadata.map fun data => shownData cfg data data.writtenBytes) =
      rows.map (shownRow db cfg) := by
  induction hsunk with
  | nil => rfl
  | cons hrow _ ih =>
    obtain ⟨hfirst, hrest⟩ := List.forall_mem_cons.mp hplain
    rw [List.map_cons, List.map_cons, ih hrest, hfirst.shown hrow]

variable (world) in
/-- Without faults, the end of a COPY in mode pqcap leaves a file that stands behind the indexed
capture of its rows. -/
theorem exec_copy_backs {ι : Type} [DecidableEq ι] (hfaults : NoFaults faults)
    (hdb : db.WritesParquet) {cfg : PqcapCopyBindData} {queues : ι → List (List Row)}
    {trace : List (ι × List Row)} {state : PqcapCopyGlobalState light} (hmode : cfg.mode = ascii "pqcap")
    (hrun : Runs (pcapngWriteSink db cfg light) queues (pcapngWriteInitializeGlobal cfg light)
      trace state)
    (hlight : light.WritesBlocks cfg.linktype (state.rows.map (writeCall cfg)))
    (hfile : FitsFile (light.content state.writer))
    (haccepts : ∀ data ∈ state.rows, data.Accepted db)
    (hplain : ∀ row ∈ sunkRows trace, PlainPayload db cfg row) (outputPath : Bytes) (address : ℕ) :
    ∃ parquet clock,
      exec (pcapngWriteFinalize faults db cfg light outputPath state address) world =
          (.ok (), ⟨indexedFiles world.files outputPath (light.content state.writer) parquet,
            clock⟩) ∧
        (FitsFile (pqcapBundle (light.content state.writer) parquet) →
          Backs db light (some (pqcapBundle (light.content state.writer) parquet))
            (some ⟨(sunkRows trace).map (shownRow db cfg), true⟩)) := by
  obtain ⟨hlocated, -⟩ := (run_aligned hrun hlight).located hfile
  have hcount := hlocated.length_eq
  obtain ⟨-, after, -, hok, -⟩ := exec_finalize_of_run hmode hrun hlight hdb haccepts hfaults
    hfile outputPath address world
  have hclosed : light.content state.writer =
      (faults world.clock).kept (light.content state.writer) := by
    rw [hfaults world.clock]
    rfl
  rcases exec_finalize_gates faults db hmode state outputPath address hclosed rfl with
    ⟨error, clock, hthrows⟩ | ⟨-, clock, hwrites⟩
  · rw [hthrows] at hok
    cases hok
  · obtain ⟨parquet, last, hsome, hread, hwritten⟩ := exec_writeIndex_files hfaults hdb
      (show (⟨Function.update world.files outputPath (some (light.content state.writer)), clock⟩ :
        World).files outputPath = _ from Function.update_self _ _ _) hcount
      (accepts_indexRows cfg.linktype hdb haccepts) address
    refine ⟨parquet, last, ?_, fun hfits => .indexed hfits hsome hread ?_⟩
    · rw [indexedFiles, Function.update_idem] at hwritten
      exact hwrites.trans hwritten
    · have hpairs : ∀ pair ∈ state.rows.zip (scanPacketLocations (light.content state.writer)),
          LocatesPacket (pqcapBundle (light.content state.writer) parquet) pair.2
            pair.1.writtenBytes := by
        intro pair hpair
        rw [pqcapBundle_eq_append]
        exact ((List.forall₂_iff_zip.mp hlocated).2 hpair).append _
      have hshown : (indexRows (state.rows.map id) (scanPacketLocations
          (light.content state.writer)) cfg.linktype).map (fun row => (indexView row,
            row.extract (pqcapBundle (light.content state.writer) parquet))) =
          (state.rows.zip (scanPacketLocations (light.content state.writer))).map fun pair =>
            shownData cfg pair.1 pair.1.writtenBytes :=
        map_indexRows fun i pair hpair => shown_indexRow (hpairs pair hpair) i
      rw [List.map_id] at hshown
      rw [hshown, ← map_shownRow (run_rows hrun).1 hplain]
      conv_rhs => rw [← List.map_fst_zip (le_of_eq hcount), List.map_map]
      rfl

variable (faults db light) in
/-- A file that is absent or ends with a footer is not indexed, and nothing changes. -/
theorem exec_embed_refuses (hfs : ServesFiles fs) {pathIn : Bytes}
    (hrefuses : ∀ content ∈ world.files (db.expandPath pathIn),
      FitsFile content ∧ endsWithFooter content = true) (address : ℕ) :
    ∃ error clock, exec (embedPqcapIndex faults fs db light pathIn address) world =
      (.error error, ⟨world.files, clock⟩) := by
  cases hfile : world.files (db.expandPath pathIn) with
  | none => exact exec_embedPqcapIndex_missing faults fs light hfile address
  | some content =>
    obtain ⟨hfits, hfooter⟩ := hrefuses content hfile
    rcases exec_embedPqcapIndex_gates faults hfs hfits hfile address with
      hthrows | ⟨rows, clock, hplain, -⟩
    · exact hthrows
    · rw [hfooter] at hplain
      cases hplain

variable {reader : Client FileRequest FileReply (Option (List IndexRow))}

/-- On a bundle a query gets the payloads of the rows that it selects. -/
theorem selectPayloads_bundle (hfs : OpensFiles fs) (hreader : ReadsParquet db reader)
    {path capture parquet : Bytes} {index : List IndexRow}
    (hfile : world.files path = some (pqcapBundle capture parquet))
    (hfits : FitsFile (pqcapBundle capture parquet)) (hparquet : parquet ≠ [])
    (hread : db.readParquet parquet = some index) (keep : Row → Bool) :
    selectPayloads fs reader world path keep =
      .ok (some ((index.filter fun row => keep (indexView row)).map fun row =>
        row.extract (pqcapBundle capture parquet))) := by
  obtain ⟨handle, hopen, hseek, hholds⟩ := hfs.stored world path _ hfits hfile
  have hsmall : FitsFile parquet := by
    have hlength := pqcapBundle_length capture parquet
    exact lt_of_le_of_lt (by omega) hfits
  obtain ⟨hasks, hresult⟩ := hreader parquet index hsmall hread
  rw [selectPayloads, readPqcap_bundle hfits hopen hseek hholds hparquet reader hasks, hresult, hfile]
  rfl

/-- Without a location there is nothing to query. -/
theorem selectPayloads_error {path : Bytes} {error : Exception}
    (hlocation : pqcapOffsetSize (fs world) path = .error error) (keep : Row → Bool) :
    selectPayloads fs reader world path keep = .error error := by
  rw [selectPayloads, readPqcap, readPqcapPath, hlocation]
  rfl

end Statements

section Refinement

variable {faults : Schedule} {db : Database} {fs : World → VirtualFileSystem} {light : LightPcapNg}
  {reader : Client FileRequest FileReply (Option (List IndexRow))} {world : World}
  {catalog : Catalog}

/-- `pqcap_embed_index` follows the catalog. -/
theorem embedIndex_follows (hfaults : NoFaults faults) (hdb : db.WritesParquet) (hcasts : db.Casts)
    (hfs : ServesFiles fs) (hbacks : BacksCatalog db light world catalog) (pathIn : Bytes)
    (address : ℕ)
    (hfits : ∀ content ∈ (exec (embedPqcapIndex faults fs db light pathIn address) world).2.files
      (db.expandPath pathIn), FitsFile content) :
    ReplyAgrees (.counted (exec (embedPqcapIndex faults fs db light pathIn address) world).1)
        (catalog.embedIndex (db.expandPath pathIn)).1 ∧
      BacksCatalog db light (exec (embedPqcapIndex faults fs db light pathIn address) world).2
        (catalog.embedIndex (db.expandPath pathIn)).2 := by
  have hrefused (hrefuses : ∀ content ∈ world.files (db.expandPath pathIn),
      FitsFile content ∧ endsWithFooter content = true) :
      ReplyAgrees (.counted (exec (embedPqcapIndex faults fs db light pathIn address) world).1)
          .refused ∧
        BacksCatalog db light (exec (embedPqcapIndex faults fs db light pathIn address) world).2
          catalog := by
    obtain ⟨error, clock, hexec⟩ := exec_embed_refuses faults db light hfs hrefuses address
    rw [hexec]
    exact ⟨.notCounted error, hbacks⟩
  have hpath := hbacks (db.expandPath pathIn)
  rw [Catalog.embedIndex]
  generalize hfile : world.files (db.expandPath pathIn) = file at hpath
  generalize hheld : catalog (db.expandPath pathIn) = held at hpath
  cases hpath with
  | absent =>
    refine hrefused fun content hcontent => ?_
    rw [hfile] at hcontent
    cases hcontent
  | plain hplain =>
    obtain ⟨parquet, clock, hexec, hindexed⟩ :=
      exec_embed_backs hfaults hdb hcasts hfs hplain hfile address
    rw [hexec] at hfits ⊢
    have hbundle := hindexed (hfits _ (indexedFiles_self world.files _ parquet))
    simp only [List.length_map]
    exact ⟨.counted _, hbacks.put hbundle clock⟩
  | indexed hbundle hparquet hread hshown =>
    refine hrefused fun content hcontent => ?_
    rw [hfile] at hcontent
    cases hcontent
    exact ⟨hbundle, endsWithFooter_pqcapBundle hbundle⟩

/-- A query follows the catalog. -/
theorem select_follows (hfs : OpensFiles fs) (hreader : ReadsParquet db reader)
    (hbacks : BacksCatalog db light world catalog) (path : Bytes) (keep : Row → Bool) :
    ReplyAgrees (.found (selectPayloads fs reader world path keep)) (catalog.select path keep) := by
  have hpath := hbacks path
  rw [Catalog.select]
  generalize hfile : world.files path = file at hpath
  generalize catalog path = held at hpath
  cases hpath with
  | absent =>
    obtain ⟨error, hmissing⟩ := hfs.missing world path hfile
    have hlocation : pqcapOffsetSize (fs world) path = .error error := by
      rw [pqcapOffsetSize, hmissing]
      rfl
    rw [selectPayloads_error hlocation]
    exact .notFound error
  | @plain content packets hplain =>
    obtain ⟨handle, hopen, -, hholds⟩ := hfs.stored world path content hplain.fits hfile
    cases hlocation : pqcapOffsetSize (fs world) path with
    | error error =>
      rw [selectPayloads_error hlocation]
      exact .notFound error
    | ok location =>
      rw [pqcapOffsetSize, hopen] at hlocation
      have hfooter := endsWithFooter_of_location hholds hlocation
      rw [hplain.plain] at hfooter
      cases hfooter
  | indexed hfits hparquet hread hshown =>
    rw [selectPayloads_bundle hfs hreader hfile hfits hparquet hread, ← hshown]
    simp only [List.filter_map, List.map_map]
    exact .found _

/-- Each request that is made of the store follows the catalog. -/
theorem perform_follows (hfaults : NoFaults faults) (hdb : db.WritesParquet) (hcasts : db.Casts)
    (hfs : OpensFiles fs) (hreader : ReadsParquet db reader) (ι : Type) [DecidableEq ι] :
    Follows (perform faults db fs reader) (Catalog.answer db) (ValidRequest db light ι)
      (WrittenFits db) (BacksCatalog db light) ReplyAgrees := by
  intro world catalog request hbacks hvalid hwithin
  cases request with
  | arrive path content =>
    obtain ⟨packets, hplain⟩ := hvalid
    refine ⟨.done, ?_⟩
    rw [Catalog.answer, hplain.reads]
    exact hbacks.update (.plain hplain) _
  | discard path => exact ⟨.done, hbacks.update .absent _⟩
  | embedIndex pathIn address =>
    exact embedIndex_follows hfaults hdb hcasts hfs.serves hbacks pathIn address hwithin
  | copy cfg rows state outputPath address =>
    obtain ⟨hmode, hlight, hfile, haccepts, hplain, queues, trace, rfl, hrun⟩ := hvalid
    obtain ⟨parquet, clock, hexec, hindexed⟩ := exec_copy_backs world hfaults hdb hmode hrun
      hlight hfile haccepts hplain outputPath address
    change ReplyAgrees (.copied (exec (pcapngWriteFinalize faults db cfg light outputPath state
      address) world).1) .done ∧ BacksCatalog db light (exec (pcapngWriteFinalize faults db cfg light
        outputPath state address) world).2 _
    change ∀ content ∈ (exec (pcapngWriteFinalize faults db cfg light outputPath state address)
      world).2.files outputPath, FitsFile content at hwithin
    rw [hexec] at hwithin ⊢
    have hbundle := hindexed (hwithin _ (indexedFiles_self world.files outputPath parquet))
    exact ⟨.copied, hbacks.put hbundle clock⟩
  | select path keep => exact ⟨select_follows hfs hreader hbacks path keep, hbacks⟩

end Refinement

/-- Without faults, over any sequence of requests, the replies of the store are those of the catalog,
and the files stay behind the catalog. -/
theorem store_refines_catalog {faults : Schedule} {db : Database} {fs : World → VirtualFileSystem}
    {light : LightPcapNg} {reader : Client FileRequest FileReply (Option (List IndexRow))} {ι : Type}
    [DecidableEq ι] (hfaults : NoFaults faults) (hdb : db.WritesParquet) (hcasts : db.Casts)
    (hfs : OpensFiles fs) (hreader : ReadsParquet db reader) (requests : List (StoreRequest light))
    (hvalid : ∀ request ∈ requests, ValidRequest db light ι request) {world : World}
    (hwithin : StaysWithin (perform faults db fs reader) (WrittenFits db) world requests)
    {catalog : Catalog} (hbacks : BacksCatalog db light world catalog) :
    List.Forall₂ ReplyAgrees (answerAll (perform faults db fs reader) world requests).1
        (answerAll (Catalog.answer db) catalog requests).1 ∧
      BacksCatalog db light (answerAll (perform faults db fs reader) world requests).2
        (answerAll (Catalog.answer db) catalog requests).2 :=
  (perform_follows hfaults hdb hcasts hfs hreader ι).run requests hvalid hwithin hbacks

/-- A reader that reads the whole file at once. -/
def wholeReader (db : Database) : Client FileRequest FileReply (Option (List IndexRow)) :=
  .ask .getFileSize fun
    | .fileSize size => .ask (.readAt size 0) fun
      | .readAt data => .stop (db.readParquet data)
      | _ => .stop none
    | _ => .stop none

theorem wholeReader_readsParquet (db : Database) : ReadsParquet db (wholeReader db) := by
  intro parquet index hfits hread
  have hsize : (Int64.ofNat parquet.length).toInt = parquet.length := Int64.toInt_ofNat_of_lt hfits
  refine ⟨⟨trivial, ?_, trivial⟩, ?_⟩
  · change 0 ≤ (Int64.ofNat parquet.length).toInt
    omega
  · change db.readParquet (slice parquet 0 (Int64.ofNat parquet.length).toInt.toNat) = _
    rw [hsize, Int.toNat_natCast, slice, List.drop_zero, List.take_length]
    exact hread

theorem localFiles_opensFiles : OpensFiles localFiles where
  stored world path content hfile hcontent := by
    refine ⟨FileHandle.ofContent content, ?_, rfl, FileHandle.ofContent_holds content hfile⟩
    rw [localFiles, hcontent]
  missing world path hmissing := by
    rw [localFiles, hmissing]
    exact ⟨_, rfl⟩

/-- The capture of one packet is a plain capture. -/
theorem oneCapture_plain : PlainCapture memoryDatabase blockFiles (oneCapture 1) [onePacket 1] where
  fits := by decide +kernel
  blocks := ⟨oneBlocks, oneBlocks_encode.symm⟩
  plain := by decide +kernel
  format path := by
    have hlength : 4 ≤ (oneCapture 1).length := by decide +kernel
    have hmagic : hostWord ((oneCapture 1).take 4) = pcapngMagic := by decide +kernel
    simp only [detectCaptureFormat, fread, if_pos hlength, hmagic, if_true]
  delivers := oneBlocks_encode ▸ oneBlocks_delivers
  reads := by decide +kernel
  links := by decide +kernel
  comments := onePacket_accepted 1

/-- The rows of the sample run have plain payloads. -/
theorem sampleTrace_plain : ∀ row ∈ sunkRows sampleTrace, PlainPayload memoryDatabase sampleBind row := by
  have hall : ∀ row ∈ sunkRows sampleTrace,
      payloadText memoryDatabase sampleBind row = payloadBytes sampleBind row ∧
        (payloadBytes sampleBind row).length < 2 ^ 32 := by decide +kernel
  exact fun row hrow => ⟨(hall row hrow).1, (hall row hrow).2⟩

/-- The capture of one packet arrives, is indexed, is offered again, and is queried; a COPY is made
and the capture is removed. -/
def sampleRequests : List (StoreRequest blockFiles) :=
  [.arrive [0x61] (oneCapture 1), .embedIndex [0x61] 0, .embedIndex [0x61] 1,
    .select [0x61] fun _ => true, .copy sampleBind (sunkRows sampleTrace) (sampleState 4)
      (ascii "out.pqcapng") 0,
    .discard [0x61]]

/-- What the catalog answers, and what is left in it. -/
example : (answerAll (Catalog.answer memoryDatabase) (fun _ => none) sampleRequests).1 =
    [.done, .counted 1, .refused, .found [ascii "abc"], .done, .done] := by decide +kernel

/-- The store follows the catalog on the sample requests. -/
theorem store_refines_catalog_sample :
    List.Forall₂ ReplyAgrees
        (answerAll (perform (fun _ => .succeeds) memoryDatabase localFiles
          (wholeReader memoryDatabase)) ⟨fun _ => none, 0⟩ sampleRequests).1
        (answerAll (Catalog.answer memoryDatabase) (fun _ => none) sampleRequests).1 ∧
      BacksCatalog memoryDatabase blockFiles
        (answerAll (perform (fun _ => .succeeds) memoryDatabase localFiles
          (wholeReader memoryDatabase)) ⟨fun _ => none, 0⟩ sampleRequests).2
        (answerAll (Catalog.answer memoryDatabase) (fun _ => none) sampleRequests).2 := by
  have hvalid : ∀ request ∈ sampleRequests,
      ValidRequest memoryDatabase blockFiles Bool request := by
    simp only [sampleRequests, List.forall_mem_cons]
    exact ⟨⟨_, oneCapture_plain⟩, trivial, trivial, trivial,
      ⟨rfl, sampleRows_written, by decide +kernel, sampleRows_accepted, sampleTrace_plain,
        sampleQueues, sampleTrace, rfl, runs_sampleTrace⟩, trivial, List.forall_mem_nil _⟩
  have hwithin : StaysWithin (perform (fun _ => .succeeds) memoryDatabase localFiles
      (wholeReader memoryDatabase)) (WrittenFits memoryDatabase) ⟨fun _ => none, 0⟩
        sampleRequests := by
    decide +kernel
  exact store_refines_catalog (fun _ => rfl) memoryDatabase_writesParquet memoryDatabase_casts
    localFiles_opensFiles (wholeReader_readsParquet memoryDatabase) sampleRequests hvalid hwithin
    fun _ => .absent

end PqcapReader
