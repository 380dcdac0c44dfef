import PqcapReader.EmbedOnce
import PqcapReader.Library.Threads

/-!
# The writing statements in steps

Other threads run between the calls of the C library and of the database that a statement
makes. Here `EmbedPqcapIndex` and `PcapngWriteFinalize` are programs whose steps are these
calls, on files that may have changed since the call before: a read looks at the size
first and takes the bytes later, and a written stream hands over its bytes in pieces, the
last one when it is closed, each at its own place in what the file holds by then.
Performed without interruption they are the functions as they are modelled elsewhere.
-/

namespace PqcapReader

open ByteCodec Effects Threads Threads.Program

/-- Programs over files, in steps. -/
abbrev Steps := Program Exception World

section Calls

variable (faults : Schedule)

/-- `fopen(path, "rb")`: whether there is a file. -/
def openReadStep (path : Bytes) : Action Bool := do
  match ← tick faults with
  | .fails _ _ => pure false
  | .succeeds =>
    let world ← get
    pure (world.files path).isSome

/-- `ftell` at the end of the file. -/
def sizeStep (path : Bytes) : Action ℕ := do
  let world ← get
  pure ((world.files path).getD []).length

/-- `fread` of as many bytes as the file had; without bytes nothing is read. -/
def readStep (path : Bytes) (size : ℕ) (failure : Exception) : Action Bytes := do
  if size = 0 then
    pure []
  else
    match ← tick faults with
    | .fails _ _ => throw failure
    | .succeeds =>
      let world ← get
      let content := (world.files path).getD []
      if content.length < size then throw failure else pure (content.take size)

/-- What a write at an offset leaves of a file. Bytes behind the end of the file are zero. -/
def patch (offset : ℕ) (piece content : Bytes) : Bytes :=
  if piece.isEmpty then
    content
  else
    content.take offset ++ List.replicate (offset - content.length) 0 ++ piece ++
      content.drop (offset + piece.length)

/-- A write at an offset of the file at a path, if it is still there. -/
def World.patch (world : World) (path : Bytes) (offset : ℕ) (piece : Bytes) : World :=
  let content := (world.files path).map (PqcapReader.patch offset piece)
  { world with files := Function.update world.files path content }

/-- `fopen(path, "wb")`, which truncates the file. -/
def openWriteStep (path : Bytes) : Action Unit := do
  match ← tick faults with
  | .fails _ _ => throw (.ioException (ascii "Failed opening " ++ path ++ ascii " for write"))
  | .succeeds => modify (·.store path [])

/-- `fwrite` of all bytes, which the stream takes before it hands them over. -/
def fwriteStep (path bytes : Bytes) (failure : Exception) : Action Unit := do
  if bytes.isEmpty then
    pure ()
  else
    match ← tick faults with
    | .fails stored _ =>
      modify (·.patch path 0 (bytes.take stored))
      throw failure
    | .succeeds => pure ()

/-- `write` of a piece at its place. -/
def writeStep (path : Bytes) (offset : ℕ) (piece : Bytes) : Action Unit :=
  modify (·.patch path offset piece)

/-- The stream hands over pieces of the sizes in turn. Its place in the file and its buffer are
left. -/
def flushSteps (path : Bytes) : ℕ → Bytes → List ℕ → Steps (ℕ × Bytes)
  | offset, buffer, [] => pure (offset, buffer)
  | offset, buffer, size :: sizes => do
    atomic (writeStep path offset (buffer.take size))
    flushSteps path (offset + (buffer.take size).length) (buffer.drop size) sizes

/-- `fclose`, which hands over the rest of the buffer. Its result is ignored. -/
def fcloseStep (path bytes : Bytes) (left : ℕ × Bytes) : Action Unit := do
  match ← tick faults with
  | .fails stored _ => modify (·.store path (bytes.take stored))
  | .succeeds => modify (·.patch path left.1 left.2)

/-- Reading a whole file. -/
def readWholeSteps (path : Bytes) (missing failure : Exception) : Steps Bytes := do
  if ← atomic (openReadStep faults path) then
    let size ← atomic (sizeStep path)
    atomic (readStep faults path size failure)
  else
    stop missing

/-- `ReadFileBytes`. -/
def readFileSteps (path : Bytes) : Steps Bytes :=
  readWholeSteps faults path (.ioException (ascii "Failed opening " ++ path))
    (.ioException (ascii "Failed reading " ++ path))

-- The sizes of the pieces that a stream hands over before it is closed.
variable (pieces : Bytes → Bytes → List ℕ)

/-- `WriteFileBytes`. -/
def writeFileSteps (path bytes : Bytes) : Steps Unit := do
  atomic (openWriteStep faults path)
  atomic (fwriteStep faults path bytes (.ioException (ascii "Failed writing " ++ path)))
  let left ← flushSteps path 0 bytes (pieces path bytes)
  atomic (fcloseStep faults path bytes left)

/-- `EmbedParquetInPqcap`. -/
def embedParquetSteps (pcapPath parquetPath : Bytes) : Steps Unit := do
  let capture ← readFileSteps faults pcapPath
  let parquet ← readFileSteps faults parquetPath
  writeFileSteps faults pieces pcapPath (pqcapBundle capture parquet)

/-- `ScanPacketLocations`. -/
def scanSteps (pcapPath : Bytes) : Steps (List PacketLocation) := do
  let data ← readWholeSteps faults pcapPath
    (.ioException (ascii "Failed opening output file for offset scan"))
    (.ioException (ascii "Failed reading output file for offset scan"))
  pure (scanPacketLocations data)

variable (db : Database)

/-- A statement of the temporary database whose error is thrown. -/
def requireSteps (history : List Bytes) (statement message : Bytes) : Steps Unit := do
  match ← atomic (query faults db history statement) with
  | .error error => stop (.ioException (message ++ error))
  | .ok _ => pure ()

/-- `WriteMetadataParquetViaSQL`. -/
def writeMetadataSteps (parquetPath : Bytes) (rows : List PacketRowData)
    (locs : List PacketLocation) (defaultLinktype : UInt16) (address : ℕ) : Steps Unit := do
  if rows.length ≠ locs.length then
    stop (.ioException
      (ascii "pqcap writer mismatch between packet rows and written packet blocks"))
  else
    let table := tableName address
    let create := createTableSql table
    let insert := insertSql table (valuesText rows locs defaultLinktype)
    requireSteps faults db [] loadSql
      (ascii "Failed loading parquet extension in temp writer DB: ")
    requireSteps faults db [loadSql] create (ascii "Failed creating temp metadata table: ")
    let history ←
      if rows.isEmpty then
        pure [loadSql, create]
      else do
        requireSteps faults db [loadSql, create] insert
          (ascii "Failed inserting pqcap metadata rows: ")
        pure [loadSql, create, insert]
    let copy := copyTableSql table parquetPath
    requireSteps faults db history copy (ascii "Failed writing embedded parquet metadata: ")
    let _ ← atomic (query faults db (history ++ [copy]) (dropTableSql table))
    pure ()

/-- From the locations on: the metadata, the bundle, and the removal of the temporary file. -/
def writeIndexSteps (path : Bytes) (rows : List PacketRowData) (locations : List PacketLocation)
    (linktype : UInt16) (address : ℕ) : Steps Unit := do
  writeMetadataSteps faults db (tempParquetPath path) rows locations linktype address
  embedParquetSteps faults pieces path (tempParquetPath path)
  atomic (remove faults (tempParquetPath path))

variable (fs : World → VirtualFileSystem) (light : LightPcapNg)

/-- `EmbedPqcapIndex`. -/
def embedIndexSteps (pathIn : Bytes) (address : ℕ) : Steps Int64 := do
  let path := db.expandPath pathIn
  atomic (ensurePlainCaptureAt faults fs path)
  let rows ← atomic (fetchPacketFeaturesFromCapture faults db light path)
  let locations ← scanSteps faults path
  if rows.length ≠ locations.length then
    stop (.ioException
      (ascii "pqcap_embed_index: packet count mismatch (features=" ++ decimal rows.length ++
        ascii " blocks=" ++ decimal locations.length ++ ascii ") in " ++ path))
  else
    writeIndexSteps faults pieces db path rows locations (defaultLinktype rows) address
    pure (Int64.ofNat rows.length)

/-- One iteration of `PqcapEmbedIndexFunction`. -/
def embedRowSteps (row : Option Bytes × ℕ) : Steps Int64 :=
  match row with
  | (none, _) => stop (.invalidInputException (ascii "pqcap_embed_index(path): path is NULL"))
  | (some path, address) => embedIndexSteps faults pieces db fs light path address

/-- `PqcapEmbedIndexFunction`, on a thread's chunk of rows. -/
def embedFunctionSteps (args : List (Option Bytes × ℕ)) : Steps (List Int64) :=
  args.mapM (embedRowSteps faults pieces db fs light)

/-- `light_pcapng_close`, which completes the writer's file. -/
def closeWriter (outputPath content : Bytes) : Action Unit := do
  modify (·.store outputPath content)
  fcloseWritten faults outputPath content

/-- The queries of `ResolveCapturePath`. -/
def resolveStep (outputPath : Bytes) : Action Bytes := do
  let world ← get
  pure (resolveCapturePath db world outputPath)

/-- `PcapngWriteFinalize`. -/
def finalizeSteps (cfg : PqcapCopyBindData) (outputPath : Bytes)
    (state : PqcapCopyGlobalState light) (address : ℕ) : Steps Unit := do
  atomic (closeWriter faults outputPath (light.content state.writer))
  if cfg.mode ≠ ascii "pqcap" then
    pure ()
  else
    let capturePath ← atomic (resolveStep db outputPath)
    let locations ← scanSteps faults capturePath
    writeIndexSteps faults pieces db capturePath state.rows locations cfg.linktype address

end Calls

section WithoutFaults

variable {faults : Schedule} (hfaults : NoFaults faults) {path : Bytes}

include hfaults

theorem exec_openWriteStep (path : Bytes) (world : World) :
    exec (openWriteStep faults path) world =
      (.ok (), ⟨Function.update world.files path (some []), world.clock + 1⟩) := by
  rw [openWriteStep, exec_bind, exec_tick hfaults]
  rfl

theorem exec_fwriteStep {bytes : Bytes} (hbytes : bytes ≠ []) (failure : Exception)
    (world : World) :
    exec (fwriteStep faults path bytes failure) world = (.ok (), ⟨world.files, world.clock + 1⟩) := by
  rw [fwriteStep, exec_ite, if_neg (mt List.isEmpty_iff.mp hbytes), exec_bind, exec_tick hfaults]
  rfl

theorem exec_fcloseWritten (path bytes : Bytes) (world : World) :
    exec (fcloseWritten faults path bytes) world = (.ok (), ⟨world.files, world.clock + 1⟩) := by
  rw [fcloseWritten, exec_bind, exec_tick hfaults]
  rfl

theorem exec_fcloseStep (bytes : Bytes) (left : ℕ × Bytes) (world : World) :
    exec (fcloseStep faults path bytes left) world =
      (.ok (), (⟨world.files, world.clock + 1⟩ : World).patch path left.1 left.2) := by
  rw [fcloseStep, exec_bind, exec_tick hfaults]
  rfl

end WithoutFaults

/-- The file holds what a stream on it has handed over, and the rest of its bytes is in the
buffer. -/
def HandedOver (path bytes : Bytes) (left : ℕ × Bytes) (world : World) : Prop :=
  ∃ stored, world.files path = some stored ∧ stored.length = left.1 ∧ stored ++ left.2 = bytes

section Streams

variable {path bytes buffer stored : Bytes} {offset : ℕ}

/-- A write at the end of a file continues it. -/
theorem patch_end (h : stored.length = offset) (piece : Bytes) :
    patch offset piece stored = stored ++ piece := by
  rw [patch]
  split
  · rename_i hempty
    rw [List.isEmpty_iff.mp hempty, List.append_nil]
  · rw [List.take_of_length_le h.le, h, Nat.sub_self, List.replicate_zero, List.append_nil,
      List.drop_of_length_le (by omega), List.append_nil]

theorem World.patch_end {world : World} (hstored : world.files path = some stored)
    (h : stored.length = offset) (piece : Bytes) :
    world.patch path offset piece =
      ⟨Function.update world.files path (some (stored ++ piece)), world.clock⟩ := by
  rw [World.patch, hstored, Option.map_some, PqcapReader.patch_end h]

/-- A stream begins with all bytes in its buffer. -/
theorem handedOver_truncated {world : World} (h : world.files path = some []) (bytes : Bytes) :
    HandedOver path bytes (0, bytes) world := ⟨[], h, rfl, rfl⟩

/-- A piece leaves the buffer for the file. -/
theorem HandedOver.piece {world : World} (h : HandedOver path bytes (offset, buffer) world)
    (size : ℕ) :
    HandedOver path bytes (offset + (buffer.take size).length, buffer.drop size)
      (world.patch path offset (buffer.take size)) := by
  obtain ⟨stored, hfile, hlength, hbytes⟩ := h
  refine ⟨stored ++ buffer.take size, ?_, ?_, ?_⟩
  · rw [World.patch_end hfile hlength]
    exact Function.update_self _ _ _
  · rw [List.length_append, hlength]
  · rw [List.append_assoc, List.take_append_drop, hbytes]

/-- Alone, a stream hands over what lies between its buffers before and after. -/
theorem exec_flushSteps (sizes : List ℕ) {world : World}
    (h : HandedOver path bytes (offset, buffer) world) :
    ∃ left stored, exec (flushSteps path offset buffer sizes).perform world =
        (.ok left, ⟨Function.update world.files path (some stored), world.clock⟩) ∧
      stored.length = left.1 ∧ stored ++ left.2 = bytes := by
  induction sizes generalizing offset buffer world with
  | nil =>
    obtain ⟨stored, hfile, hlength, hbytes⟩ := h
    refine ⟨(offset, buffer), stored, ?_, hlength, hbytes⟩
    rw [← hfile, Function.update_eq_self]
    rfl
  | cons size sizes ih =>
    obtain ⟨left, stored, hexec, hleft⟩ := ih (h.piece size)
    refine ⟨left, stored, ?_, hleft⟩
    rw [flushSteps, exec_perform_bind, exec_bind]
    refine hexec.trans ?_
    simp only [World.patch, Function.update_idem]

end Streams

section Performed

variable (faults : Schedule)

theorem exec_perform_atomic {A : Type} (effect : Action A) (world : World) :
    exec (atomic effect).perform world = exec effect world := rfl

/-- Reading in steps reads the file as it is. -/
theorem readWholeSteps_performs (path : Bytes) (missing failure : Exception) :
    Performs (readWholeSteps faults path missing failure) (do
      match ← fopenRead faults path with
      | none => throw missing
      | some content => freadAll faults content failure) := by
  intro world
  rw [readWholeSteps, exec_perform_bind, exec_bind, exec_bind, exec_perform_atomic, openReadStep,
    fopenRead, exec_bind, exec_bind, exec_tick_outcome]
  cases faults world.clock with
  | fails stored error => rfl
  | succeeds =>
    simp only [exec_bind, exec_get, exec_pure]
    cases hfile : world.files path with
    | none => rfl
    | some content =>
      simp only [Option.isSome_some, if_true, exec_perform_bind, exec_bind, exec_perform_atomic,
        sizeStep, exec_get, exec_pure, hfile, Option.getD_some, readStep, freadAll, exec_ite,
        exec_tick_outcome]
      cases content with
      | nil => rfl
      | cons byte rest =>
        simp only [List.length_cons, Nat.add_eq_zero_iff, one_ne_zero, and_false, if_false,
          List.isEmpty_cons, Bool.false_eq_true]
        cases faults (world.clock + 1) with
        | fails stored error => rfl
        | succeeds =>
          simp only [exec_bind, exec_get, hfile, Option.getD_some, List.length_cons,
            lt_self_iff_false, if_false, exec_pure]
          rw [← List.length_cons (a := byte), List.take_length]

theorem readFileSteps_performs (path : Bytes) :
    Performs (readFileSteps faults path) (readFileBytes faults path) :=
  readWholeSteps_performs faults path _ _

/-- Over a file just truncated `fwrite` fails with what it has stored, or takes all bytes. -/
theorem exec_fwriteStep_cases (path bytes : Bytes) (failure : Exception) {world : World}
    (h : world.files path = some []) :
    (∃ after, exec (fwriteStep faults path bytes failure) world = (.error failure, after) ∧
        exec (fwriteAll faults path bytes failure) world = (.error failure, after)) ∨
      ∃ clock, exec (fwriteStep faults path bytes failure) world =
          (.ok (), ⟨world.files, clock⟩) ∧
        exec (fwriteAll faults path bytes failure) world =
          (.ok (), ⟨Function.update world.files path (some bytes), clock⟩) := by
  rw [fwriteStep, fwriteAll, exec_ite, exec_ite]
  split
  · rename_i hempty
    refine .inr ⟨world.clock, rfl, ?_⟩
    rw [List.isEmpty_iff.mp hempty, ← h, Function.update_eq_self]
    rfl
  · rw [exec_bind, exec_bind, exec_tick_outcome]
    cases faults world.clock with
    | fails stored error =>
      refine .inl ⟨⟨Function.update world.files path (some (bytes.take stored)), world.clock + 1⟩,
        ?_, rfl⟩
      simp only [exec_bind, exec_modify]
      rw [World.patch_end (show (⟨world.files, world.clock + 1⟩ : World).files path = some [] from h)
        List.length_nil, List.nil_append]
      rfl
    | succeeds => exact .inr ⟨world.clock + 1, rfl, rfl⟩

/-- Closed, the file holds all bytes, or what could be stored of them. -/
theorem exec_fcloseStep_handedOver (path : Bytes) {bytes stored : Bytes} {left : ℕ × Bytes}
    (hlength : stored.length = left.1) (hbytes : stored ++ left.2 = bytes) (world : World) :
    exec (fcloseStep faults path bytes left)
        ⟨Function.update world.files path (some stored), world.clock⟩ =
      exec (fcloseWritten faults path bytes)
        ⟨Function.update world.files path (some bytes), world.clock⟩ := by
  rw [fcloseStep, fcloseWritten, exec_bind, exec_bind, exec_tick_outcome, exec_tick_outcome]
  dsimp only
  cases faults world.clock with
  | fails kept error => simp only [exec_modify, World.store, Function.update_idem]
  | succeeds =>
    simp only [exec_modify, exec_pure]
    rw [World.patch_end (Function.update_self _ _ _) hlength, hbytes, Function.update_idem]

variable (pieces : Bytes → Bytes → List ℕ)

/-- Writing in steps replaces the file, whatever the pieces. -/
theorem writeFileSteps_performs (path bytes : Bytes) :
    Performs (writeFileSteps faults pieces path bytes) (writeFileBytes faults path bytes) := by
  intro world
  rw [writeFileSteps, writeFileBytes, exec_perform_bind, exec_bind, exec_bind, exec_perform_atomic,
    openWriteStep, exec_bind, exec_tick_outcome]
  cases faults world.clock with
  | fails stored error => rfl
  | succeeds =>
    simp only [exec_modify, exec_perform_bind, exec_bind]
    have htruncated : ((⟨world.files, world.clock + 1⟩ : World).store path []).files path =
        some [] := Function.update_self _ _ _
    generalize (⟨world.files, world.clock + 1⟩ : World).store path [] = opened at htruncated ⊢
    rw [exec_perform_atomic]
    rcases exec_fwriteStep_cases faults path bytes (.ioException (ascii "Failed writing " ++ path))
      htruncated with ⟨after, hstep, hall⟩ | ⟨clock, hstep, hall⟩
    · rw [hstep, hall]
    · rw [hstep, hall]
      obtain ⟨left, stored, hflushed, hlength, hbytes⟩ := exec_flushSteps (pieces path bytes)
        (handedOver_truncated (show (⟨opened.files, clock⟩ : World).files path = some []
          from htruncated) bytes)
      simp only [hflushed, exec_perform_atomic]
      exact exec_fcloseStep_handedOver faults path hlength hbytes ⟨opened.files, clock⟩

theorem embedParquetSteps_performs (pcapPath parquetPath : Bytes) :
    Performs (embedParquetSteps faults pieces pcapPath parquetPath)
      (embedParquetInPqcap faults pcapPath parquetPath) :=
  (readFileSteps_performs faults pcapPath).bind fun capture =>
    (readFileSteps_performs faults parquetPath).bind fun parquet =>
      writeFileSteps_performs faults pieces pcapPath (pqcapBundle capture parquet)

theorem scanSteps_performs (pcapPath : Bytes) :
    Performs (scanSteps faults pcapPath) (scanPacketLocationsAt faults pcapPath) := by
  intro world
  have hread := (readWholeSteps_performs faults pcapPath
    (.ioException (ascii "Failed opening output file for offset scan"))
    (.ioException (ascii "Failed reading output file for offset scan"))).bind
      fun data => Performs.pure (scanPacketLocations data)
  rw [scanSteps, hread world, scanPacketLocationsAt, exec_bind, exec_bind, exec_bind]
  cases exec (fopenRead faults pcapPath) world with
  | mk opened next =>
    cases opened with
    | error error => rfl
    | ok found =>
      cases found with
      | none => rfl
      | some content => exact (exec_bind _ _ next).symm

variable (db : Database)

/-- A checked statement in steps, and what follows it. -/
theorem requireSteps_performs {A : Type} (history : List Bytes) (statement message : Bytes)
    {next : Unit → Steps A} {rest : Unit → Action A} (hrest : ∀ u, Performs (next u) (rest u)) :
    Performs (requireSteps faults db history statement message >>= next)
      (query faults db history statement >>= fun result => requireSuccess result message >>= rest) := by
  have hcheck : Performs (requireSteps faults db history statement message)
      (query faults db history statement >>= fun result => requireSuccess result message) := by
    refine (Performs.atomic _).bind fun result => ?_
    cases result with
    | error error => exact Performs.stop _
    | ok value => exact Performs.pure ()
  have hboth := hcheck.bind hrest
  rwa [bind_assoc] at hboth

/-- Either branch in steps does what the branch does at once. -/
theorem performs_ite {A : Type} {c : Prop} [Decidable c] {left right : Steps A}
    {left' right' : Action A} (h : Performs left left') (h' : Performs right right') :
    Performs (if c then left else right) (if c then left' else right') := by
  split
  · exact h
  · exact h'

theorem writeMetadataSteps_performs (parquetPath : Bytes) (rows : List PacketRowData)
    (locs : List PacketLocation) (defaultLinktype : UInt16) (address : ℕ) :
    Performs (writeMetadataSteps faults db parquetPath rows locs defaultLinktype address)
      (writeMetadataParquetViaSQL faults db parquetPath rows locs defaultLinktype address) := by
  refine performs_ite (Performs.stop _) ?_
  refine requireSteps_performs faults db _ _ _ fun _ => ?_
  refine requireSteps_performs faults db _ _ _ fun _ => ?_
  have hcopy (history : List Bytes) :
      Performs (do
        requireSteps faults db history (copyTableSql (tableName address) parquetPath)
          (ascii "Failed writing embedded parquet metadata: ")
        let _ ← atomic (query faults db (history ++ [copyTableSql (tableName address) parquetPath])
          (dropTableSql (tableName address)))
        pure ()) (do
        requireSuccess (← query faults db history (copyTableSql (tableName address) parquetPath))
          (ascii "Failed writing embedded parquet metadata: ")
        let _ ← query faults db (history ++ [copyTableSql (tableName address) parquetPath])
          (dropTableSql (tableName address))
        pure ()) :=
    requireSteps_performs faults db _ _ _ fun _ =>
      (Performs.atomic _).bind fun _ => Performs.pure ()
  split
  · exact hcopy _
  · exact requireSteps_performs faults db _ _ _ fun _ => hcopy _

theorem writeIndexSteps_performs (path : Bytes) (rows : List PacketRowData)
    (locations : List PacketLocation) (linktype : UInt16) (address : ℕ) :
    Performs (writeIndexSteps faults pieces db path rows locations linktype address)
      (writeIndex faults db path rows locations linktype address) :=
  (writeMetadataSteps_performs faults db _ rows locations linktype address).bind fun _ =>
    (embedParquetSteps_performs faults pieces path _).bind fun _ => Performs.atomic _

variable (fs : World → VirtualFileSystem) (light : LightPcapNg)

/-- Without interruption the steps are `EmbedPqcapIndex`. -/
theorem embedIndexSteps_performs (pathIn : Bytes) (address : ℕ) :
    Performs (embedIndexSteps faults pieces db fs light pathIn address)
      (embedPqcapIndex faults fs db light pathIn address) :=
  (Performs.atomic _).bind fun _ => (Performs.atomic _).bind fun rows =>
    (scanSteps_performs faults _).bind fun locations =>
      performs_ite (Performs.stop _)
        ((writeIndexSteps_performs faults pieces db _ rows locations _ address).bind fun _ =>
          Performs.pure _)

/-- Without interruption the steps are `PqcapEmbedIndexFunction`. -/
theorem embedFunctionSteps_performs (args : List (Option Bytes × ℕ)) :
    Performs (embedFunctionSteps faults pieces db fs light args)
      (pqcapEmbedIndexFunction faults fs db light args) := by
  refine Performs.mapM (fun row => ?_) args
  obtain ⟨_ | path, address⟩ := row
  · exact Performs.stop _
  · exact embedIndexSteps_performs faults pieces db fs light path address

/-- Without interruption the steps are `PcapngWriteFinalize`. -/
theorem finalizeSteps_performs (cfg : PqcapCopyBindData) (outputPath : Bytes)
    (state : PqcapCopyGlobalState light) (address : ℕ) :
    Performs (finalizeSteps faults pieces db light cfg outputPath state address)
      (pcapngWriteFinalize faults db cfg light outputPath state address) := by
  have hsteps : Performs (finalizeSteps faults pieces db light cfg outputPath state address) (do
      closeWriter faults outputPath (light.content state.writer)
      if cfg.mode ≠ ascii "pqcap" then
        pure ()
      else
        let capturePath ← resolveStep db outputPath
        let locations ← scanPacketLocationsAt faults capturePath
        writeIndex faults db capturePath state.rows locations cfg.linktype address) :=
    (Performs.atomic _).bind fun _ => performs_ite (Performs.pure ())
      ((Performs.atomic _).bind fun capturePath => (scanSteps_performs faults capturePath).bind
        fun locations => writeIndexSteps_performs faults pieces db _ _ locations _ address)
  intro world
  rw [hsteps world, closeWriter, bind_assoc]
  rfl

end Performed

end PqcapReader
