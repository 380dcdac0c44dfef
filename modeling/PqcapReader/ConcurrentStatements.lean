import PqcapReader.IndexAgreement
import PqcapReader.IndexSteps

/-!
# Statements that run at the same time

Nothing in the extension locks a capture. A statement reads and writes its capture and the
temporary file beside it, and nothing else; so statements on different captures do not
notice each other, whatever the order of their steps.
-/

namespace PqcapReader

open ByteCodec SqlText Effects Threads Threads.Program

section Locality

variable {keys : Set Bytes}

/-- An effect whose result and whose change are those of one file. -/
theorem local_of_file {A : Type} {effect : Action A} {path : Bytes} (hpath : path ∈ keys)
    (result : Option Bytes → Except Exception A) (content : Option Bytes → Option Bytes)
    (h : ∀ world, ∃ clock, exec effect world =
      (result (world.files path),
        ⟨Function.update world.files path (content (world.files path)), clock⟩)) :
    Local World.files keys effect where
  frame world key hkey := by
    obtain ⟨clock, hexec⟩ := h world
    have hother : key ≠ path := by
      rintro rfl
      exact hkey hpath
    rw [hexec]
    exact Function.update_of_ne hother _ _
  reads left right hagree := by
    obtain ⟨clock, hleft⟩ := h left
    obtain ⟨clock', hright⟩ := h right
    have hfile : left.files path = right.files path := hagree path hpath
    rw [hleft, hright, hfile]
    refine ⟨rfl, fun key hkey => ?_⟩
    change Function.update _ _ _ key = Function.update _ _ _ key
    by_cases hother : key = path
    · rw [hother, Function.update_self, Function.update_self]
    · rw [Function.update_of_ne hother, Function.update_of_ne hother]
      exact hagree key hkey

/-- An effect whose result is that of one file, and that changes none. -/
theorem local_of_read {A : Type} {effect : Action A} {path : Bytes} (hpath : path ∈ keys)
    (result : Option Bytes → Except Exception A)
    (h : ∀ world, ∃ clock, exec effect world = (result (world.files path), ⟨world.files, clock⟩)) :
    Local World.files keys effect := by
  refine local_of_file hpath result id fun world => ?_
  obtain ⟨clock, hexec⟩ := h world
  exact ⟨clock, by rw [hexec, id, Function.update_eq_self]⟩

variable {faults : Schedule} (hfaults : NoFaults faults) {path : Bytes} (hpath : path ∈ keys)

include hfaults hpath

theorem openReadStep_local : Local World.files keys (openReadStep faults path) :=
  local_of_read hpath (fun found => .ok found.isSome) fun world => by
    rw [openReadStep, exec_bind, exec_tick hfaults]
    exact ⟨_, rfl⟩

omit hfaults in
theorem sizeStep_local : Local World.files keys (sizeStep path) :=
  local_of_read hpath (fun found => .ok (found.getD []).length) fun world => ⟨world.clock, rfl⟩

theorem readStep_local (size : ℕ) (failure : Exception) :
    Local World.files keys (readStep faults path size failure) :=
  local_of_read hpath (fun found =>
    if size = 0 then .ok []
    else if (found.getD []).length < size then .error failure
    else .ok ((found.getD []).take size)) fun world => by
      rw [readStep, exec_ite]
      split
      · exact ⟨_, rfl⟩
      · rw [exec_bind, exec_tick hfaults]
        simp only [exec_bind, exec_get, exec_ite]
        split
        · exact ⟨_, rfl⟩
        · exact ⟨_, rfl⟩

theorem openWriteStep_local : Local World.files keys (openWriteStep faults path) :=
  local_of_file hpath (fun _ => .ok ()) (fun _ => some []) fun world =>
    ⟨_, exec_openWriteStep hfaults path world⟩

omit hfaults in
theorem writeStep_local (offset : ℕ) (piece : Bytes) :
    Local World.files keys (writeStep path offset piece) :=
  local_of_file hpath (fun _ => .ok ()) (Option.map (patch offset piece)) fun world =>
    ⟨world.clock, rfl⟩

theorem fwriteStep_local (bytes : Bytes) (failure : Exception) :
    Local World.files keys (fwriteStep faults path bytes failure) :=
  local_of_read hpath (fun _ => .ok ()) fun world => by
    by_cases hbytes : bytes = []
    · rw [hbytes]
      exact ⟨world.clock, rfl⟩
    · exact ⟨_, exec_fwriteStep hfaults hbytes failure world⟩

theorem fcloseStep_local (bytes : Bytes) (left : ℕ × Bytes) :
    Local World.files keys (fcloseStep faults path bytes left) :=
  local_of_file hpath (fun _ => .ok ()) (Option.map (patch left.1 left.2)) fun world =>
    ⟨_, exec_fcloseStep hfaults bytes left world⟩

theorem remove_local : Local World.files keys (remove faults path) :=
  local_of_file hpath (fun _ => .ok ()) (fun _ => none) fun world =>
    ⟨_, exec_remove hfaults path world⟩

theorem closeWriter_local (content : Bytes) : Local World.files keys (closeWriter faults path content) :=
  local_of_file hpath (fun _ => .ok ()) (fun _ => some content) fun world => by
    rw [closeWriter, exec_bind, exec_modify]
    exact ⟨_, exec_fcloseWritten hfaults path content _⟩

/-- A statement that writes no other file. -/
theorem query_local {db : Database} {history : List Bytes} {statement : Bytes}
    (h : ∀ file, db.session history statement = .ok (some file) → file.1 = path) :
    Local World.files keys (query faults db history statement) := by
  cases hsession : db.session history statement with
  | error error => exact local_of_read hpath (fun _ => .ok (.error error)) fun world =>
      ⟨_, exec_query_error hfaults hsession world⟩
  | ok written =>
    cases written with
    | none => exact local_of_read hpath (fun _ => .ok (.ok ())) fun world =>
        ⟨_, exec_query_ok hfaults hsession world⟩
    | some file =>
      obtain ⟨written, content⟩ := file
      obtain rfl : written = path := h _ hsession
      exact local_of_file hpath (fun _ => .ok (.ok ())) (fun _ => some content) fun world =>
        ⟨_, exec_query_write hfaults hsession world⟩

end Locality

/-- The host opens a path by the file that is there. -/
def OpensByFile (fs : World → VirtualFileSystem) (path : Bytes) : Prop :=
  ∀ left right : World, left.files path = right.files path →
    fs left path fileFlagsRead = fs right path fileFlagsRead

theorem localFiles_opensByFile (path : Bytes) : OpensByFile localFiles path := by
  intro left right hfile
  rw [localFiles, localFiles, hfile]

section Programs

variable {keys : Set Bytes} {faults : Schedule} (hfaults : NoFaults faults) {path : Bytes}
  (hpath : path ∈ keys)

include hfaults hpath

theorem ensurePlainCaptureAt_local {fs : World → VirtualFileSystem} (hfs : OpensByFile fs path) :
    Local World.files keys (ensurePlainCaptureAt faults fs path) := by
  refine local_of_read hpath (fun found =>
    ensurePlainCapture (fs ⟨Function.update (fun _ => none) path found, 0⟩) path) fun world => ?_
  have hopen : fs ⟨world.files, world.clock + 1⟩ path fileFlagsRead =
      fs ⟨Function.update (fun _ => none) path (world.files path), 0⟩ path fileFlagsRead := by
    refine hfs _ _ ?_
    change world.files path = Function.update (fun _ => none) path (world.files path) path
    rw [Function.update_self]
  rw [ensurePlainCaptureAt, exec_bind, exec_tick hfaults]
  simp only [exec_bind, exec_get, exec_fromExcept, ensurePlainCapture, hopen]
  exact ⟨_, rfl⟩

theorem fetchPacketFeatures_local (db : Database) (light : LightPcapNg) :
    Local World.files keys (fetchPacketFeaturesFromCapture faults db light path) := by
  refine local_of_read hpath (fun found =>
    ((selectFeatures db light path fun _ => found).mapError fun error => .ioException
      (ascii "pqcap_embed_index: failed reading capture features: " ++ db.errorText error)) >>=
        List.mapM (featureRow db)) fun world => ?_
  rw [fetchPacketFeaturesFromCapture, exec_bind, exec_tick hfaults]
  simp only [exec_bind, exec_get, selectFeatures, readText_quoted]
  cases readPqcapPackets db light path (world.files path) with
  | error error => exact ⟨_, rfl⟩
  | ok rows => exact ⟨_, rfl⟩

theorem readWholeSteps_within (missing failure : Exception) :
    Within World.files keys (readWholeSteps faults path missing failure) := by
  refine (openReadStep_local hfaults hpath).within.bind fun opened => ?_
  split
  · exact (sizeStep_local hpath).within.bind fun size =>
      (readStep_local hfaults hpath size failure).within
  · exact Within.stop missing

omit hfaults in
theorem flushSteps_within (sizes : List ℕ) (offset : ℕ) (buffer : Bytes) :
    Within World.files keys (flushSteps path offset buffer sizes) := by
  induction sizes generalizing offset buffer with
  | nil => exact Within.pure _
  | cons size sizes ih => exact (writeStep_local hpath _ _).within.bind fun _ => ih _ _

theorem writeFileSteps_within (pieces : Bytes → Bytes → List ℕ) (bytes : Bytes) :
    Within World.files keys (writeFileSteps faults pieces path bytes) :=
  (openWriteStep_local hfaults hpath).within.bind fun _ =>
    (fwriteStep_local hfaults hpath bytes _).within.bind fun _ =>
      (flushSteps_within hpath _ _ _).bind fun left =>
        (fcloseStep_local hfaults hpath bytes left).within

theorem scanSteps_within : Within World.files keys (scanSteps faults path) :=
  (readWholeSteps_within hfaults hpath _ _).bind fun _ => Within.pure _

/-- A checked statement that writes no other file. -/
theorem requireSteps_within {db : Database} {history : List Bytes} {statement : Bytes}
    (message : Bytes)
    (h : ∀ file, db.session history statement = .ok (some file) → file.1 = path) :
    Within World.files keys (requireSteps faults db history statement message) := by
  refine (query_local hfaults hpath h).within.bind fun result => ?_
  cases result with
  | error error => exact Within.stop _
  | ok value => exact Within.pure ()

omit hpath in
/-- A statement that is refused is the last. -/
theorem requireSteps_refused {db : Database} {history : List Bytes} {statement error : Bytes}
    (message : Bytes) (h : db.session history statement = .error error) :
    Returns (fun _ => False) (requireSteps faults db history statement message) := by
  intro world
  have hrefused : (exec (query faults db history statement) world).1 = .ok (.error error) := by
    rw [exec_query_error hfaults h]
  change Returns _ ((.done (exec (query faults db history statement) world).1 : Steps _) >>= _)
  rw [hrefused]
  exact fun value hvalue => nomatch hvalue

/-- The metadata is written to the temporary file only. -/
theorem writeMetadataSteps_within {db : Database} (hdb : db.WritesParquet)
    (rows : List PacketRowData) (locs : List PacketLocation) (defaultLinktype : UInt16)
    (address : ℕ) :
    Within World.files keys
      (writeMetadataSteps faults db path rows locs defaultLinktype address) := by
  rw [writeMetadataSteps]
  split
  · exact Within.stop _
  · rename_i hcount
    have hfileless {history : List Bytes} {statement : Bytes}
        (h : db.session history statement = .ok none) (message : Bytes) :
        Within World.files keys (requireSteps faults db history statement message) :=
      requireSteps_within hfaults hpath message fun file hfile => by
        rw [h] at hfile
        cases hfile
    have hcopied {history : List Bytes} {content : Bytes}
        (hcopy : db.session history (copyTableSql (tableName address) path) =
          .ok (some (path, content))) :
        Within World.files keys (do
          requireSteps faults db history (copyTableSql (tableName address) path)
            (ascii "Failed writing embedded parquet metadata: ")
          let _ ← atomic (query faults db (history ++ [copyTableSql (tableName address) path])
            (dropTableSql (tableName address)))
          pure ()) := by
      refine (requireSteps_within hfaults hpath _ fun file hfile => ?_).bind fun _ =>
        (query_local hfaults hpath fun file hfile => absurd hfile (hdb.drop _ address file)).within.bind
          fun _ => Within.pure ()
      rw [hcopy] at hfile
      cases hfile
      rfl
    refine (hfileless hdb.load _).bind fun _ => (hfileless (hdb.create address) _).bind fun _ => ?_
    cases rows with
    | nil =>
      obtain ⟨content, -, -, hcopy⟩ := hdb.copyEmpty address path
      exact hcopied hcopy
    | cons row rest =>
      have hvalues := readRows_valuesText defaultLinktype (List.cons_ne_nil row rest)
        (not_not.mp hcount)
      by_cases haccepts : db.Accepts (indexRows (row :: rest) locs defaultLinktype)
      · obtain ⟨content, -, -, hcopy⟩ := hdb.copy address _ _ path hvalues haccepts
        exact (hfileless (hdb.insert address _ _ hvalues haccepts) _).bind fun _ => hcopied hcopy
      · -- The rows are refused, and nothing is written.
        obtain ⟨error, hrejects⟩ := hdb.reject address _ _ hvalues haccepts
        refine (requireSteps_within hfaults hpath _ fun file hfile => ?_).bind_of_returns
          (requireSteps_refused hfaults _ hrejects) fun _ hnever => hnever.elim
        rw [hrejects] at hfile
        cases hfile

/-- Both files of the embedding may be read, and the first is written. -/
theorem embedParquetSteps_within (pieces : Bytes → Bytes → List ℕ) {parquetPath : Bytes}
    (hparquet : parquetPath ∈ keys) :
    Within World.files keys (embedParquetSteps faults pieces path parquetPath) :=
  (readWholeSteps_within hfaults hpath _ _).bind fun capture =>
    (readWholeSteps_within hfaults hparquet _ _).bind fun parquet =>
      writeFileSteps_within hfaults hpath pieces (pqcapBundle capture parquet)

/-- The part that writes stays with the capture and its temporary file. -/
theorem writeIndexSteps_within (pieces : Bytes → Bytes → List ℕ)
    (htemp : tempParquetPath path ∈ keys) {db : Database}
    (hdb : db.WritesParquet) (rows : List PacketRowData) (locations : List PacketLocation)
    (linktype : UInt16) (address : ℕ) :
    Within World.files keys (writeIndexSteps faults pieces db path rows locations linktype address) :=
  (writeMetadataSteps_within hfaults htemp hdb rows locations linktype address).bind fun _ =>
    (embedParquetSteps_within hfaults hpath pieces htemp).bind fun _ =>
      (remove_local hfaults htemp).within

/-- A call of `EmbedPqcapIndex` stays with the capture and its temporary file. -/
theorem embedIndexSteps_within (pieces : Bytes → Bytes → List ℕ)
    (htemp : tempParquetPath path ∈ keys) {db : Database}
    (hdb : db.WritesParquet) {fs : World → VirtualFileSystem} (hfs : OpensByFile fs path)
    (light : LightPcapNg) {pathIn : Bytes} (hexpand : db.expandPath pathIn = path) (address : ℕ) :
    Within World.files keys (embedIndexSteps faults pieces db fs light pathIn address) := by
  rw [embedIndexSteps, hexpand]
  refine (ensurePlainCaptureAt_local hfaults hpath hfs).within.bind fun _ =>
    (fetchPacketFeatures_local hfaults hpath db light).within.bind fun rows =>
      (scanSteps_within hfaults hpath).bind fun locations => ?_
  split
  · exact Within.stop _
  · exact (writeIndexSteps_within hfaults hpath pieces htemp hdb _ _ _ _).bind fun _ => Within.pure _

end Programs

/-- The path that a host moves a finished `tmp_` file to. -/
def finalPath (db : Database) (outputPath : Bytes) : Bytes :=
  db.joinPath (db.getFilePath outputPath) ((db.getFileName outputPath).drop 4)

/-- The capture path is the output path or the final one. -/
theorem resolveCapturePath_cases (db : Database) (world : World) (outputPath : Bytes) :
    resolveCapturePath db world outputPath = outputPath ∨
      resolveCapturePath db world outputPath = finalPath db outputPath := by
  rw [resolveCapturePath]
  split
  · exact .inl rfl
  · dsimp only
    split
    · split
      · exact .inr rfl
      · exact .inl rfl
    · exact .inl rfl

/-- The files of a statement on a capture. -/
def captureFiles (path : Bytes) : Set Bytes := {path, tempParquetPath path}

/-- The files of a row's evaluation. -/
def rowFiles (db : Database) (row : Option Bytes × ℕ) : Set Bytes :=
  {path | ∃ pathIn ∈ row.1, path ∈ captureFiles (db.expandPath pathIn)}

section Finalize

variable {keys : Set Bytes} {outputPath : Bytes} {db : Database}

/-- Which path is resolved depends on the two files only. -/
theorem resolveStep_local (houtput : outputPath ∈ keys) (hfinal : finalPath db outputPath ∈ keys) :
    Local World.files keys (resolveStep db outputPath) where
  frame _ _ _ := rfl
  reads left right hagree := by
    have hleft : left.files outputPath = right.files outputPath := hagree _ houtput
    have hright : left.files (finalPath db outputPath) = right.files (finalPath db outputPath) :=
      hagree _ hfinal
    rw [finalPath] at hright
    refine ⟨?_, hagree⟩
    change Except.ok (resolveCapturePath db left outputPath) =
      Except.ok (resolveCapturePath db right outputPath)
    simp only [resolveCapturePath, hleft, hright]

/-- A finalized COPY stays with the captures at the output path and at the final path. -/
theorem finalizeSteps_within {faults : Schedule} (hfaults : NoFaults faults)
    (pieces : Bytes → Bytes → List ℕ) (hdb : db.WritesParquet)
    (houtput : captureFiles outputPath ⊆ keys)
    (hfinal : captureFiles (finalPath db outputPath) ⊆ keys) (cfg : PqcapCopyBindData)
    {light : LightPcapNg} (state : PqcapCopyGlobalState light) (address : ℕ) :
    Within World.files keys (finalizeSteps faults pieces db light cfg outputPath state address) := by
  have hpath : outputPath ∈ keys := houtput (.inl rfl)
  have hother : finalPath db outputPath ∈ keys := hfinal (.inl rfl)
  refine (closeWriter_local hfaults hpath _).within.bind fun _ => ?_
  split
  · exact Within.pure ()
  · have hreturns : Returns (fun path => path = outputPath ∨ path = finalPath db outputPath)
        (atomic (resolveStep db outputPath)) := by
      intro world path hresolved
      rw [← Except.ok.inj hresolved]
      exact resolveCapturePath_cases db world outputPath
    refine (resolveStep_local hpath hother).within.bind_of_returns hreturns fun path hresolved => ?_
    have hfiles : captureFiles path ⊆ keys := by
      rcases hresolved with rfl | rfl
      · exact houtput
      · exact hfinal
    exact (scanSteps_within hfaults (hfiles (.inl rfl))).bind fun locations =>
      writeIndexSteps_within hfaults (hfiles (.inl rfl)) pieces (hfiles (.inr rfl)) hdb _ _ _ _

end Finalize

/-- What a thread does that writes an index: it evaluates `pqcap_embed_index` on a chunk of rows, or
ends a COPY. -/
inductive IndexStatement (light : LightPcapNg)
  | embedIndex (args : List (Option Bytes × ℕ))
  | finalize (cfg : PqcapCopyBindData) (outputPath : Bytes) (state : PqcapCopyGlobalState light)
      (address : ℕ)

namespace IndexStatement

variable {light : LightPcapNg} (faults : Schedule) (pieces : Bytes → Bytes → List ℕ)
  (db : Database) (fs : World → VirtualFileSystem)

/-- The files that the statement may read or write. -/
def files : IndexStatement light → Set Bytes
  | embedIndex args => {path | ∃ row ∈ args, path ∈ rowFiles db row}
  | finalize _ outputPath _ _ => captureFiles outputPath ∪ captureFiles (finalPath db outputPath)

/-- The statement at once; COPY has no result. -/
def run : IndexStatement light → Action (Option (List Int64))
  | embedIndex args => do
    let counts ← pqcapEmbedIndexFunction faults fs db light args
    pure (some counts)
  | finalize cfg outputPath state address => do
    pcapngWriteFinalize faults db cfg light outputPath state address
    pure none

/-- The statement in steps. -/
def steps : IndexStatement light → Steps (Option (List Int64))
  | embedIndex args => do
    let counts ← embedFunctionSteps faults pieces db fs light args
    pure (some counts)
  | finalize cfg outputPath state address => do
    finalizeSteps faults pieces db light cfg outputPath state address
    pure none

/-- The host opens the captures that the statement checks by the files that are there. -/
def OpensByFile (statement : IndexStatement light) : Prop :=
  ∀ args, statement = embedIndex args → ∀ row ∈ args, ∀ pathIn ∈ row.1,
    PqcapReader.OpensByFile fs (db.expandPath pathIn)

theorem steps_performs (statement : IndexStatement light) :
    Performs (statement.steps faults pieces db fs) (statement.run faults db fs) := by
  cases statement with
  | embedIndex args =>
    exact (embedFunctionSteps_performs faults pieces db fs light args).bind fun _ => Performs.pure _
  | finalize cfg outputPath state address =>
    exact (finalizeSteps_performs faults pieces db light cfg outputPath state address).bind fun _ =>
      Performs.pure _

variable {faults pieces db fs}

/-- Every step of a statement stays with the statement's files. -/
theorem steps_within (hfaults : NoFaults faults) (hdb : db.WritesParquet)
    (statement : IndexStatement light) (hfs : statement.OpensByFile db fs) :
    Within World.files (statement.files db) (statement.steps faults pieces db fs) := by
  cases statement with
  | embedIndex args =>
    refine (Within.mapM fun row hrow => ?_).bind fun _ => Within.pure _
    obtain ⟨_ | pathIn, address⟩ := row
    · exact Within.stop _
    · have hfiles : captureFiles (db.expandPath pathIn) ⊆
          {path | ∃ row ∈ args, path ∈ rowFiles db row} :=
        fun path hpath => ⟨_, hrow, pathIn, rfl, hpath⟩
      exact embedIndexSteps_within hfaults (hfiles (.inl rfl)) pieces (hfiles (.inr rfl)) hdb
        (hfs args rfl _ hrow pathIn rfl) light rfl address
  | finalize cfg outputPath state address =>
    exact (finalizeSteps_within hfaults pieces hdb Set.subset_union_left Set.subset_union_right cfg state
      address).bind fun _ => Within.pure _

theorem files_singleton (pathIn : Bytes) (address : ℕ) :
    (embedIndex [(some pathIn, address)] : IndexStatement light).files db =
      captureFiles (db.expandPath pathIn) := by
  refine Set.ext fun path => ⟨?_, fun h => ⟨_, List.mem_singleton_self _, pathIn, rfl, h⟩⟩
  rintro ⟨row, hrow, other, hother, hpath⟩
  obtain rfl := List.mem_singleton.mp hrow
  obtain rfl : pathIn = other := Option.some.inj hother
  exact hpath

end IndexStatement

/-- Without faults, statements that share no file do not interfere: however their steps interleave,
each has the result, and leaves its files as, when it runs alone on the files before, and no
other file changes. -/
theorem statements_isolated {ι : Type} [DecidableEq ι] {light : LightPcapNg} {faults : Schedule}
    (hfaults : NoFaults faults) (pieces : Bytes → Bytes → List ℕ) {db : Database}
    (hdb : db.WritesParquet) {fs : World → VirtualFileSystem} (statements : ι → IndexStatement light)
    (hfs : ∀ thread, (statements thread).OpensByFile db fs)
    (hdisjoint : Pairwise fun left right =>
      Disjoint ((statements left).files db) ((statements right).files db))
    {world final : World} {last : ι → Steps (Option (List Int64))}
    {results : ι → Except Exception (Option (List Int64))}
    (hrun : Interleaves (fun thread => (statements thread).steps faults pieces db fs) world last final)
    (hdone : ∀ thread, last thread = .done (results thread)) :
    (∀ thread, results thread = (exec ((statements thread).run faults db fs) world).1 ∧
        ∀ path ∈ (statements thread).files db,
          final.files path = (exec ((statements thread).run faults db fs) world).2.files path) ∧
      ∀ path, (∀ thread, path ∉ (statements thread).files db) →
        final.files path = world.files path := by
  obtain ⟨hthreads, hothers⟩ := hrun.finished
    (fun thread => IndexStatement.steps_within hfaults hdb (statements thread) (hfs thread))
    hdisjoint hdone
  refine ⟨fun thread => ?_, hothers⟩
  have halone := IndexStatement.steps_performs faults pieces db fs (statements thread) world
  rw [← halone]
  exact hthreads thread

/-- A chunk of `pqcap_embed_index` and the end of a COPY. -/
def sampleStatements : Bool → IndexStatement blockFiles
  | false => .embedIndex [(some [0x61], 0)]
  | true => .finalize sampleBind (ascii "out.pqcapng") (sampleState 4) 0

/-- The two statements share no file. -/
theorem sampleStatements_disjoint : Pairwise fun left right =>
    Disjoint ((sampleStatements left).files memoryDatabase)
      ((sampleStatements right).files memoryDatabase) := by
  have hfiles : Disjoint ((sampleStatements false).files memoryDatabase)
      ((sampleStatements true).files memoryDatabase) := by
    rw [sampleStatements, IndexStatement.files_singleton, Set.disjoint_left]
    rintro path (rfl | rfl) ((h | h) | h | h)
    all_goals exact absurd h (by decide +kernel)
  intro left right hne
  cases left with
  | false =>
    cases right with
    | false => exact absurd rfl hne
    | true => exact hfiles
  | true =>
    cases right with
    | false => exact hfiles.symm
    | true => exact absurd rfl hne

/-- A stream that hands over 64 bytes before it is closed. -/
def samplePieces (_ _ : Bytes) : List ℕ := [64]

/-- The first statement has checked its capture, and has all else to do. -/
theorem sampleStatements_begun :
    ∃ begun next, Reaches ((sampleStatements false).steps (fun _ => .succeeds) samplePieces
        memoryDatabase localFiles) (worldOf [0x61] (oneCapture 1)) begun next ∧
      ∀ result, begun ≠ .done result := by
  have hfaults : NoFaults fun _ => Outcome.succeeds := fun _ => rfl
  obtain ⟨hfile, hplain, -⟩ := oneCapture_gate 1 (.inr rfl)
  obtain ⟨result, clock, hchecked, -, hpasses⟩ := exec_ensurePlainCaptureAt (fun _ => .succeeds)
    localFiles_serves hfile (worldOf_files [0x61] (oneCapture 1))
  rw [hpasses hfaults hplain] at hchecked
  refine ⟨_, _, ((((Performs.atomic _).reaches hchecked _).bind _).bind _), fun result h => ?_⟩
  cases h

/-- Alone, each statement leaves a bundle. -/
theorem sampleStatements_alone :
    (∃ parquet, (exec ((sampleStatements false).run (fun _ => .succeeds) memoryDatabase localFiles)
        (worldOf [0x61] (oneCapture 1))).2.files [0x61] =
          some (pqcapBundle (oneCapture 1) parquet)) ∧
      ∃ parquet, (exec ((sampleStatements true).run (fun _ => .succeeds) memoryDatabase localFiles)
        (worldOf [0x61] (oneCapture 1))).2.files (ascii "out.pqcapng") =
          some (pqcapBundle (blockFiles.content (sampleState 4).writer) parquet) := by
  have hfaults : NoFaults fun _ => Outcome.succeeds := fun _ => rfl
  constructor
  · obtain ⟨hfile, hplain, hpackets, hscan⟩ := oneCapture_gate 1 (.inr rfl)
    obtain ⟨parquet, after, -, hbundle, hembed⟩ := exec_embed_worldOf hfile hplain hpackets
      (congrArg List.length hscan.symm) (onePacket_accepted 1)
    have hrow : exec (pqcapEmbedIndexRow (fun _ => .succeeds) localFiles memoryDatabase blockFiles
        (some [0x61], 0)) (worldOf [0x61] (oneCapture 1)) = (.ok 1, after) := hembed
    have hfunction : exec (pqcapEmbedIndexFunction (fun _ => .succeeds) localFiles memoryDatabase
        blockFiles [(some [0x61], 0)]) (worldOf [0x61] (oneCapture 1)) = (.ok [1], after) := by
      rw [pqcapEmbedIndexFunction, List.mapM_cons, exec_bind_ok _ hrow]
      rfl
    refine ⟨parquet, ?_⟩
    rw [sampleStatements, IndexStatement.run, exec_bind_ok _ hfunction]
    exact hbundle
  · have hmode : sampleBind.mode = ascii "pqcap" := rfl
    have hcount : (sampleState 4).rows.length =
        (scanPacketLocations (blockFiles.content (sampleState 4).writer)).length := by
      decide +kernel
    obtain ⟨parquet, after, -, -, hbundle, hfinalize⟩ := exec_pcapngWriteFinalize hfaults
      memoryDatabase_writesParquet hmode rfl hcount
      (accepts_indexRows _ memoryDatabase_writesParquet sampleRows_accepted) (ascii "out.pqcapng") 0
      (worldOf [0x61] (oneCapture 1))
    refine ⟨parquet, ?_⟩
    rw [sampleStatements, IndexStatement.run, exec_bind_ok _ hfinalize]
    exact hbundle

/-- Both statements run to their ends, the second while the first is at work, and leave a bundle
each. -/
theorem sampleStatements_isolated :
    ∃ begun first second between final, (∀ result, begun ≠ .done result) ∧
      Interleaves (fun thread => (sampleStatements thread).steps (fun _ => .succeeds) samplePieces
        memoryDatabase localFiles) (worldOf [0x61] (oneCapture 1)) (pair begun (.done second))
        between ∧
      Interleaves (pair begun (.done second)) between (pair (.done first) (.done second)) final ∧
      (∃ parquet, final.files [0x61] = some (pqcapBundle (oneCapture 1) parquet)) ∧
        ∃ parquet, final.files (ascii "out.pqcapng") =
          some (pqcapBundle (blockFiles.content (sampleState 4).writer) parquet) := by
  have hfaults : NoFaults fun _ => Outcome.succeeds := fun _ => rfl
  have hpair : (fun thread => (sampleStatements thread).steps (fun _ => .succeeds) samplePieces
      memoryDatabase localFiles) = pair ((sampleStatements false).steps (fun _ => .succeeds)
        samplePieces memoryDatabase localFiles) ((sampleStatements true).steps (fun _ => .succeeds)
          samplePieces memoryDatabase localFiles) := by
    funext thread
    cases thread with
    | false => rfl
    | true => rfl
  obtain ⟨begun, next, hreaches, hbegun⟩ := sampleStatements_begun
  obtain ⟨first, second, between, final, hbetween, hends⟩ := Interleaves.exists_nested hreaches
    ((sampleStatements true).steps (fun _ => .succeeds) samplePieces memoryDatabase localFiles)
  rw [← hpair] at hbetween
  have hdone (thread : Bool) :
      pair (.done first) (.done second) thread =
        (.done (bif thread then second else first) : Steps (Option (List Int64))) := by
    cases thread with
    | false => rfl
    | true => rfl
  obtain ⟨hthreads, -⟩ := statements_isolated hfaults samplePieces memoryDatabase_writesParquet
    sampleStatements (fun _ _ _ _ _ _ _ => localFiles_opensByFile _) sampleStatements_disjoint
    (hbetween.trans hends) hdone
  obtain ⟨⟨parquet, hbundle⟩, copied, hcopied⟩ := sampleStatements_alone
  have hmem : [0x61] ∈ (sampleStatements false).files memoryDatabase := by
    rw [sampleStatements, IndexStatement.files_singleton]
    exact .inl rfl
  exact ⟨begun, first, second, between, final, hbegun, hbetween, hends,
    ⟨parquet, ((hthreads false).2 _ hmem).trans hbundle⟩,
    ⟨copied, ((hthreads true).2 _ (.inl (.inl rfl))).trans hcopied⟩⟩

end PqcapReader
