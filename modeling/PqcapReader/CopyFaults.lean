import PqcapReader.EmbedFaults
import PqcapReader.StreamEnd

/-!
# A COPY whose steps fail

`PcapngWriteFinalize` does not look at the result of closing the capture, and indexes what
is there. The comparison of the counts stands in for the missing check: a capture that the
close has cut has fewer packets than there are rows. What the statement leaves is then what
`EmbedPqcapIndex` leaves on that capture.
-/

namespace PqcapReader

open ByteCodec Effects Interleaving

section Finalize

variable (faults : Schedule) {db : Database} {light : LightPcapNg} {cfg : PqcapCopyBindData}

/-- Closing the writer leaves what the close keeps of the capture. -/
theorem exec_close (outputPath content : Bytes) (world : World) :
    exec (fcloseWritten faults outputPath content) (world.store outputPath content) =
      (.ok (), ⟨Function.update world.files outputPath
        (some ((faults world.clock).kept content)), world.clock + 1⟩) := by
  have hclock : (world.store outputPath content).clock = world.clock := rfl
  rw [fcloseWritten, exec_bind, exec_tick_outcome, hclock]
  cases faults world.clock with
  | fails stored text => simp only [exec_modify, World.store, Function.update_idem, Outcome.kept]
  | succeeds => rfl

variable (db) in
/-- Whatever fails, a COPY in mode pqcap throws with the closed capture in place, or it has as many
rows as that has packets, and goes on to write the index. -/
theorem exec_finalize_gates (hmode : cfg.mode = ascii "pqcap") (state : PqcapCopyGlobalState light)
    (outputPath : Bytes) (address : ℕ) {world : World} {capture : Bytes}
    {files : Bytes → Option Bytes}
    (hcapture : capture = (faults world.clock).kept (light.content state.writer))
    (hfiles : files = Function.update world.files outputPath (some capture)) :
    (∃ error clock, exec (pcapngWriteFinalize faults db cfg light outputPath state address) world =
        (.error error, ⟨files, clock⟩)) ∨
      state.rows.length = (scanPacketLocations capture).length ∧
        ∃ clock, exec (pcapngWriteFinalize faults db cfg light outputPath state address) world =
          exec (writeIndex faults db outputPath state.rows (scanPacketLocations capture) cfg.linktype
            address) ⟨files, clock⟩ := by
  have hclose := exec_close faults outputPath (light.content state.writer) world
  rw [← hcapture, ← hfiles] at hclose
  have hstored : files outputPath = some capture := by rw [hfiles, Function.update_self]
  have hthere : ((⟨files, world.clock + 1⟩ : World).files outputPath).isSome = true := by
    change (files outputPath).isSome = true
    rw [hstored, Option.isSome_some]
  have hresolved : resolveCapturePath db ⟨files, world.clock + 1⟩ outputPath = outputPath := by
    rw [resolveCapturePath, if_pos hthere]
  have hfinalize : exec (pcapngWriteFinalize faults db cfg light outputPath state address) world =
      exec (do
        let locations ← scanPacketLocationsAt faults outputPath
        writeIndex faults db outputPath state.rows locations cfg.linktype address)
        ⟨files, world.clock + 1⟩ := by
    rw [pcapngWriteFinalize, exec_bind, exec_modify]
    simp only
    rw [exec_bind_ok _ hclose, exec_ite, if_neg (not_not.mpr hmode), exec_bind, exec_get]
    simp only [hresolved]
    rfl
  obtain ⟨scanned, clock, hscanned, hlocations⟩ := exec_scanPacketLocationsAt_outcome faults
    (show (⟨files, world.clock + 1⟩ : World).files outputPath = some capture from hstored)
  rw [hfinalize]
  cases scanned with
  | error error => exact .inl ⟨error, clock, exec_bind_error _ hscanned⟩
  | ok locations =>
    rw [exec_bind_ok _ hscanned, hlocations locations rfl]
    by_cases hcount : state.rows.length = (scanPacketLocations capture).length
    · exact .inr ⟨hcount, clock, rfl⟩
    · refine .inl ⟨.ioException (ascii
        "pqcap writer mismatch between packet rows and written packet blocks"), clock, ?_⟩
      rw [writeIndex, writeMetadataParquetViaSQL, if_pos hcount]
      rfl

/-- Returning a number behind a program does not change what it leaves. -/
theorem exec_bind_pure_map (program : Action Unit) (count : Int64) (world : World) :
    exec (program >>= fun _ => pure count) world =
      ((exec program world).1.map fun _ => count, (exec program world).2) := by
  rw [exec_bind]
  cases exec program world with
  | mk result after =>
    cases result with
    | error error => rfl
    | ok _ => rfl

/-- The Parquet file holds the index of the rows on a capture with as many packets. -/
def IndexesRows (db : Database) (rows : List PacketRowData) (linktype : UInt16)
    (capture parquet : Bytes) : Prop :=
  rows.length = (scanPacketLocations capture).length ∧
    db.readParquet parquet = some (indexRows rows (scanPacketLocations capture) linktype)

/-- Whatever fails, a COPY in mode pqcap leaves on its closed capture one of the outcomes of
`EmbedPqcapIndex`. -/
theorem exec_finalize_outcome (hdb : db.WritesParquet) (hmode : cfg.mode = ascii "pqcap")
    (state : PqcapCopyGlobalState light) (outputPath : Bytes) (address : ℕ) {world : World}
    {capture : Bytes} (hcapture : capture = (faults world.clock).kept (light.content state.writer))
    {run : Except Exception Unit × World}
    (hexec : run = exec (pcapngWriteFinalize faults db cfg light outputPath state address) world) :
    EmbedOutcome faults (IndexesRows db state.rows cfg.linktype capture) outputPath capture
      (Function.update world.files outputPath (some capture)) (run.1.map fun _ => 0, run.2) := by
  rcases exec_finalize_gates faults db hmode state outputPath address hcapture rfl with
    ⟨error, clock, hthrows⟩ | ⟨hcount, clock, hindex⟩
  · rw [hexec, hthrows]
    exact .untouched error clock
  · rw [hexec, hindex, ← exec_bind_pure_map]
    exact exec_writeIndex_outcome faults hdb (Function.update_self _ _ _) hcount
      (fun _ hread => ⟨hcount, hread⟩) address 0 clock

/-- In the other mode a COPY leaves what the close keeps of the capture. -/
theorem exec_finalize_closes (hmode : cfg.mode ≠ ascii "pqcap")
    (state : PqcapCopyGlobalState light) (outputPath : Bytes) (address : ℕ) (world : World) :
    exec (pcapngWriteFinalize faults db cfg light outputPath state address) world =
      (.ok (), ⟨Function.update world.files outputPath
        (some ((faults world.clock).kept (light.content state.writer))), world.clock + 1⟩) := by
  rw [pcapngWriteFinalize, exec_bind, exec_modify]
  simp only
  rw [exec_bind_ok _ (exec_close faults outputPath (light.content state.writer) world), exec_ite,
    if_pos hmode, exec_pure]

/-- A part of a capture that the close has kept has all packets only if it is the whole capture. -/
theorem kept_eq_of_count {outcome : Outcome} {rows : List PacketRowData} (hrows : rows ≠ [])
    (hlight : light.WritesBlocks cfg.linktype (rows.map (writeCall cfg)))
    {content : Bytes}
    (hcontent : content = light.content (writeRows cfg light (light.openWrite cfg.linktype) rows))
    (hfile : FitsFile content) (hcount : (scanPacketLocations content).length ≤
      (scanPacketLocations (outcome.kept content)).length) :
    outcome.kept content = content := by
  cases outcome with
  | succeeds => rfl
  | fails stored text =>
    rw [Outcome.kept] at hcount ⊢
    by_contra hcut
    have hsplit : content.take stored ++ content.drop stored = content := List.take_append_drop _ _
    have hmore : content.drop stored ≠ [] := by
      intro hnil
      rw [hnil, List.append_nil] at hsplit
      exact hcut hsplit
    obtain ⟨blocks, packet, hblocks⟩ := content_ends_with_packet hlight hrows
    have hfewer := scan_cut_lt (hsplit.trans (hcontent.trans hblocks)) hmore (hsplit.symm ▸ hfile)
    rw [hsplit] at hfewer
    omega

end Finalize

section Runs

variable {ι : Type} [DecidableEq ι] {db : Database} {light : LightPcapNg}
  {cfg : PqcapCopyBindData} {queues : ι → List (List Row)} {trace : List (ι × List Row)}
  {state : PqcapCopyGlobalState light}

/-- Whatever fails, a COPY in mode pqcap leaves what the close keeps of the capture, and of its
index what `EmbedPqcapIndex` would leave there. A COPY of at least one row that returns had its
capture closed whole: the rows are counted against the packets. -/
theorem copy_leaves (hmode : cfg.mode = ascii "pqcap")
    (hrun : Runs (pcapngWriteSink db cfg light) queues (pcapngWriteInitializeGlobal cfg light)
      trace state)
    (hlight : light.WritesBlocks cfg.linktype (state.rows.map (writeCall cfg)))
    (hdb : db.WritesParquet) (hfile : FitsFile (light.content state.writer)) (faults : Schedule)
    (outputPath : Bytes) (address : ℕ) (world : World) {capture : Bytes}
    (hcapture : capture = (faults world.clock).kept (light.content state.writer))
    {run : Except Exception Unit × World}
    (hexec : run = exec (pcapngWriteFinalize faults db cfg light outputPath state address) world) :
    EmbedOutcome faults (IndexesRows db state.rows cfg.linktype capture) outputPath capture
        (Function.update world.files outputPath (some capture)) (run.1.map fun _ => 0, run.2) ∧
      (run.1 = .ok () → state.rows.length = (scanPacketLocations capture).length ∧
        (sunkRows trace ≠ [] → capture = light.content state.writer)) := by
  have hrows := run_rows hrun
  have hlocated := (run_aligned hrun hlight).located hfile
  refine ⟨exec_finalize_outcome faults hdb hmode state outputPath address hcapture hexec, ?_⟩
  intro hok
  rcases exec_finalize_gates faults db hmode state outputPath address hcapture rfl with
    ⟨error, clock, hthrows⟩ | ⟨hcount, -⟩
  · rw [hexec, hthrows] at hok
    cases hok
  · refine ⟨hcount, fun hsunk => ?_⟩
    have hsome : state.rows ≠ [] := by
      intro hnil
      have hlength := hrows.1.length_eq
      rw [hnil, List.length_nil, List.length_eq_zero_iff] at hlength
      exact hsunk hlength
    rw [hcapture]
    refine kept_eq_of_count hsome hlight (congrArg light.content hrows.2) hfile ?_
    rw [← hcapture, ← hcount, hlocated.1.length_eq]

end Runs

/-- The close of the capture keeps its first hundred bytes. -/
def cutClose : Schedule := fun step =>
  if step = 0 then .fails 100 (ascii "No space left on device") else .succeeds

/-- What the sample run leaves when the close of its capture loses bytes. -/
theorem copy_leaves_sample :
    EmbedOutcome cutClose (IndexesRows memoryDatabase sampleRows 1
          ((blockFiles.content (sampleState 4).writer).take 100))
        (ascii "out.pqcapng") ((blockFiles.content (sampleState 4).writer).take 100)
        (Function.update (fun _ => none) (ascii "out.pqcapng")
          (some ((blockFiles.content (sampleState 4).writer).take 100)))
        ((exec (pcapngWriteFinalize cutClose memoryDatabase sampleBind blockFiles
          (ascii "out.pqcapng") (sampleState 4) 0) ⟨fun _ => none, 0⟩).1.map fun _ => 0,
        (exec (pcapngWriteFinalize cutClose memoryDatabase sampleBind blockFiles
          (ascii "out.pqcapng") (sampleState 4) 0) ⟨fun _ => none, 0⟩).2) ∧
      ((exec (pcapngWriteFinalize cutClose memoryDatabase sampleBind blockFiles
          (ascii "out.pqcapng") (sampleState 4) 0) ⟨fun _ => none, 0⟩).1 = .ok () →
        sampleRows.length = (scanPacketLocations
            ((blockFiles.content (sampleState 4).writer).take 100)).length ∧
          (sunkRows sampleTrace ≠ [] → (blockFiles.content (sampleState 4).writer).take 100 =
            blockFiles.content (sampleState 4).writer)) :=
  copy_leaves rfl runs_sampleTrace sampleRows_written
    memoryDatabase_writesParquet (by decide +kernel) cutClose (ascii "out.pqcapng") 0
    ⟨fun _ => none, 0⟩ rfl rfl

end PqcapReader
