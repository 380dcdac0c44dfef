import PqcapReader.EmbedIndex

/-!
# What a failing step leaves behind

Every step of `EmbedPqcapIndex` may fail. Until the temporary Parquet file is written no
file changes; from then on a failure leaves that file behind; and the rewrite of the
capture in its place, once it has truncated the capture, leaves what the failing write has
stored. The close of the rewritten capture and the removal of the temporary file are not
looked at, so their failures are not reported.
-/

namespace PqcapReader

open ByteCodec SqlText Effects

/-- What a write that ends so leaves of its bytes. -/
def Outcome.kept (outcome : Outcome) (bytes : Bytes) : Bytes :=
  match outcome with
  | .succeeds => bytes
  | .fails stored _ => bytes.take stored

/-- What a removal that ends so leaves of the file. -/
def Outcome.leftover (outcome : Outcome) (bytes : Bytes) : Option Bytes :=
  match outcome with
  | .succeeds => none
  | .fails _ _ => some bytes

theorem not_noFaults {faults : Schedule} {step stored : ℕ} {error : Bytes}
    (h : faults step = .fails stored error) : ¬ NoFaults faults := by
  intro hfaults
  rw [hfaults step] at h
  cases h

section Steps

variable (faults : Schedule)

/-- A file that exists is read whole, or a step fails; no file changes. -/
theorem exec_readFileBytes_outcome {path content : Bytes} {world : World}
    (hcontent : world.files path = some content) :
    ∃ result clock, exec (readFileBytes faults path) world = (result, ⟨world.files, clock⟩) ∧
      (result = .ok content ∨ (∃ error, result = .error error) ∧ ¬ NoFaults faults) := by
  rw [readFileBytes, exec_bind, fopenRead, exec_bind, exec_tick_outcome]
  cases hopen : faults world.clock with
  | fails stored text => exact ⟨_, _, rfl, .inr ⟨⟨_, rfl⟩, not_noFaults hopen⟩⟩
  | succeeds =>
    simp only [exec_bind, exec_get, exec_pure, hcontent, freadAll, exec_ite, exec_tick_outcome]
    split
    · exact ⟨_, _, rfl, .inl rfl⟩
    · cases hread : faults (world.clock + 1) with
      | fails stored text => exact ⟨_, _, rfl, .inr ⟨⟨_, rfl⟩, not_noFaults hread⟩⟩
      | succeeds => exact ⟨_, _, rfl, .inl rfl⟩

/-- Replacing a file by some bytes: the file is untouched when it cannot be opened, holds what the
failing write has stored, or holds what its close keeps. -/
theorem exec_writeFileBytes_outcome {path bytes : Bytes} (hbytes : bytes ≠ []) (world : World) :
    (∃ error clock, exec (writeFileBytes faults path bytes) world =
        (.error error, ⟨world.files, clock⟩) ∧ ¬ NoFaults faults) ∨
      (∃ error clock stored text, faults clock = .fails stored text ∧
        exec (writeFileBytes faults path bytes) world =
          (.error error, ⟨Function.update world.files path (some (bytes.take stored)),
            clock + 1⟩)) ∨
        ∃ clock, exec (writeFileBytes faults path bytes) world =
          (.ok (), ⟨Function.update world.files path (some ((faults clock).kept bytes)),
            clock + 1⟩) := by
  have hempty : bytes.isEmpty = false := by simpa using hbytes
  rw [writeFileBytes, exec_bind, exec_tick_outcome]
  cases hopen : faults world.clock with
  | fails stored text => exact .inl ⟨_, _, rfl, not_noFaults hopen⟩
  | succeeds =>
    simp only [exec_bind, exec_modify, World.store, fwriteAll, hempty, Bool.false_eq_true,
      if_false, exec_tick_outcome]
    cases hwrite : faults (world.clock + 1) with
    | fails stored text =>
      refine .inr (.inl ⟨.ioException (ascii "Failed writing " ++ path), world.clock + 1, stored,
        text, hwrite, ?_⟩)
      simp only [exec_bind, exec_modify, exec_throw, Function.update_idem]
    | succeeds =>
      refine .inr (.inr ⟨world.clock + 2, ?_⟩)
      simp only [exec_modify, World.store, fcloseWritten, exec_bind, exec_tick_outcome]
      cases faults (world.clock + 1 + 1) with
      | fails stored text => simp only [exec_modify, Function.update_idem, Outcome.kept]
      | succeeds => simp only [exec_pure, Function.update_idem, Outcome.kept]

/-- A bundle is never empty. -/
theorem pqcapBundle_ne_nil (capture parquet : Bytes) : pqcapBundle capture parquet ≠ [] := by
  intro hnil
  have hlength := pqcapBundle_length capture parquet
  rw [hnil, List.length_nil] at hlength
  omega

/-- Embedding changes no file until it writes the bundle, and then leaves what the write leaves. -/
theorem exec_embedParquetInPqcap_outcome {pcapPath parquetPath capture parquet : Bytes}
    {world : World} (hcapture : world.files pcapPath = some capture)
    (hparquet : world.files parquetPath = some parquet) :
    (∃ error clock, exec (embedParquetInPqcap faults pcapPath parquetPath) world =
        (.error error, ⟨world.files, clock⟩) ∧ ¬ NoFaults faults) ∨
      (∃ error clock stored text, faults clock = .fails stored text ∧
        exec (embedParquetInPqcap faults pcapPath parquetPath) world =
          (.error error, ⟨Function.update world.files pcapPath
            (some ((pqcapBundle capture parquet).take stored)), clock + 1⟩)) ∨
        ∃ clock, exec (embedParquetInPqcap faults pcapPath parquetPath) world =
          (.ok (), ⟨Function.update world.files pcapPath
            (some ((faults clock).kept (pqcapBundle capture parquet))), clock + 1⟩) := by
  rw [embedParquetInPqcap]
  obtain ⟨first, clock, hfirst, rfl | ⟨⟨error, rfl⟩, hfaults⟩⟩ :=
    exec_readFileBytes_outcome faults hcapture
  · rw [exec_bind_ok _ hfirst]
    obtain ⟨second, clock, hsecond, rfl | ⟨⟨error, rfl⟩, hfaults⟩⟩ :=
      exec_readFileBytes_outcome faults
        (show (⟨world.files, clock⟩ : World).files parquetPath = some parquet from hparquet)
    · rw [exec_bind_ok _ hsecond]
      exact exec_writeFileBytes_outcome faults (pqcapBundle_ne_nil capture parquet) _
    · exact .inl ⟨error, clock, exec_bind_error _ hsecond, hfaults⟩
  · exact .inl ⟨error, clock, exec_bind_error _ hfirst, hfaults⟩

/-- Removing a file that exists never throws. -/
theorem exec_remove_outcome {path content : Bytes} {world : World}
    (hcontent : world.files path = some content) :
    exec (remove faults path) world =
      (.ok (), ⟨Function.update world.files path ((faults world.clock).leftover content),
        world.clock + 1⟩) := by
  rw [remove, exec_bind, exec_tick_outcome]
  cases faults world.clock with
  | succeeds => rfl
  | fails stored text =>
    simp only [exec_pure, Outcome.leftover, ← hcontent, Function.update_eq_self]

end Steps

section Outcomes

variable (faults : Schedule) {db : Database}

/-- What writing the metadata can leave, given which Parquet files can be its content: no change, a
part of such a file, or the whole. -/
inductive MetadataOutcome (index : Bytes → Prop) (parquetPath : Bytes)
    (files : Bytes → Option Bytes) : Except Exception Unit × World → Prop
  | untouched (error : Exception) (clock : ℕ) :
      MetadataOutcome index parquetPath files (.error error, ⟨files, clock⟩)
  | cut (error : Exception) (clock : ℕ) (content : Bytes) (hcontent : index content) (stored : ℕ)
      (hfaults : ¬ NoFaults faults) :
      MetadataOutcome index parquetPath files (.error error, ⟨Function.update files parquetPath
        (partialFile (files parquetPath) content stored), clock⟩)
  | written (clock : ℕ) (content : Bytes) (hcontent : index content) :
      MetadataOutcome index parquetPath files
        (.ok (), ⟨Function.update files parquetPath (some content), clock⟩)

section Statements

variable {index : Bytes → Prop} {history : List Bytes} {statement message parquetPath : Bytes}
  {files : Bytes → Option Bytes} {rest : Unit → Action Unit}

/-- A checked statement that writes no file may go before the others: the program stops with all
files as they were, or goes on. -/
theorem MetadataOutcome.require (h : db.session history statement = .ok none)
    (hrest : ∀ clock, MetadataOutcome faults index parquetPath files
      (exec (rest ()) ⟨files, clock⟩)) (clock : ℕ) :
    MetadataOutcome faults index parquetPath files (exec (query faults db history statement >>=
      fun result => requireSuccess result message >>= rest) ⟨files, clock⟩) := by
  rw [exec_bind, query, exec_bind, exec_tick_outcome, h]
  cases faults clock with
  | fails stored text => exact .untouched _ _
  | succeeds => exact hrest (clock + 1)

/-- A checked statement that the database answers with an error stops the program. -/
theorem MetadataOutcome.stop {error : Bytes} (h : db.session history statement = .error error)
    (clock : ℕ) :
    MetadataOutcome faults index parquetPath files (exec (query faults db history statement >>=
      fun result => requireSuccess result message >>= rest) ⟨files, clock⟩) := by
  rw [exec_bind, query, exec_bind, exec_tick_outcome, h]
  cases faults clock with
  | fails stored text => exact .untouched _ _
  | succeeds => exact .untouched _ _

end Statements

/-- The last two statements write the file and drop the table, whose failure is not looked at. -/
theorem exec_copyAndDrop (hdb : db.WritesParquet) {index : Bytes → Prop} {history : List Bytes}
    {parquetPath content : Bytes} (hcontent : index content) {address : ℕ}
    (hcopy : db.session history (copyTableSql (tableName address) parquetPath) =
      .ok (some (parquetPath, content))) (world : World) :
    MetadataOutcome faults index parquetPath world.files (exec (do
      requireSuccess (← query faults db history (copyTableSql (tableName address) parquetPath))
        (ascii "Failed writing embedded parquet metadata: ")
      let _ ← query faults db (history ++ [copyTableSql (tableName address) parquetPath])
        (dropTableSql (tableName address))
      pure ()) world) := by
  rw [exec_bind, query, exec_bind, exec_tick_outcome, hcopy]
  cases hquery : faults world.clock with
  | fails stored text => exact .cut _ _ content hcontent stored (not_noFaults hquery)
  | succeeds =>
    obtain ⟨result, hdrop⟩ := exec_query_fileless faults
      (hdb.drop (history ++ [copyTableSql (tableName address) parquetPath]) address)
      ⟨Function.update world.files parquetPath (some content), world.clock + 1⟩
    change MetadataOutcome faults index parquetPath world.files (exec (do
      let _ ← query faults db (history ++ [copyTableSql (tableName address) parquetPath])
        (dropTableSql (tableName address))
      pure ()) ⟨Function.update world.files parquetPath (some content), world.clock + 1⟩)
    rw [exec_bind_ok _ hdrop]
    exact .written _ content hcontent

/-- Writing the metadata of as many rows as locations. -/
theorem exec_writeMetadata_outcome (hdb : db.WritesParquet) (parquetPath : Bytes)
    {rows : List PacketRowData} {locs : List PacketLocation} (hlength : rows.length = locs.length)
    {defaultLinktype : UInt16} {index : Bytes → Prop} (hindex : ∀ content,
      db.readParquet content = some (indexRows rows locs defaultLinktype) → index content)
    (address : ℕ) (world : World) :
    MetadataOutcome faults index parquetPath world.files
      (exec (writeMetadataParquetViaSQL faults db parquetPath rows locs defaultLinktype address)
        world) := by
  obtain ⟨files, clock⟩ := world
  rw [writeMetadataParquetViaSQL, if_neg (not_not.mpr hlength)]
  cases rows with
  | nil =>
    obtain ⟨content, -, hread, hcopy⟩ := hdb.copyEmpty address parquetPath
    refine MetadataOutcome.require faults hdb.load (fun clock => ?_) clock
    refine MetadataOutcome.require faults (hdb.create address) (fun clock => ?_) clock
    exact exec_copyAndDrop faults hdb (hindex content hread) hcopy ⟨files, clock⟩
  | cons row rest =>
    have hvalues := readRows_valuesText defaultLinktype (List.cons_ne_nil row rest) hlength
    refine MetadataOutcome.require faults hdb.load (fun clock => ?_) clock
    refine MetadataOutcome.require faults (hdb.create address) (fun clock => ?_) clock
    by_cases haccepts : db.Accepts (indexRows (row :: rest) locs defaultLinktype)
    · obtain ⟨content, -, hread, hcopy⟩ := hdb.copy address _ _ parquetPath hvalues haccepts
      refine MetadataOutcome.require faults (hdb.insert address _ _ hvalues haccepts)
        (fun clock => ?_) clock
      exact exec_copyAndDrop faults hdb (hindex content hread) hcopy ⟨files, clock⟩
    · obtain ⟨error, hsession⟩ := hdb.reject address _ _ hvalues haccepts
      exact MetadataOutcome.stop faults hsession clock

/-- All that a call on a capture can leave, given the files before it and which Parquet files can
be its index. A call that throws leaves every file as it was, or what a failing COPY leaves of the
temporary file; or, where the write of the bundle fails, a part of the bundle in the capture's
place. A call that returns leaves what the close of the rewritten capture keeps of the bundle, and
what the removal leaves of the temporary file. -/
inductive EmbedOutcome (index : Bytes → Prop) (path capture : Bytes)
    (files : Bytes → Option Bytes) : Except Exception Int64 × World → Prop
  | untouched (error : Exception) (clock : ℕ) :
      EmbedOutcome index path capture files (.error error, ⟨files, clock⟩)
  | temporaryLeft (error : Exception) (clock : ℕ) (parquet : Bytes) (hparquet : index parquet)
      (stored : ℕ) (hfaults : ¬ NoFaults faults) :
      EmbedOutcome index path capture files (.error error, ⟨Function.update files
        (tempParquetPath path) (partialFile (files (tempParquetPath path)) parquet stored), clock⟩)
  | rewriteCut (error : Exception) (clock : ℕ) (parquet : Bytes) (hparquet : index parquet)
      (stored : ℕ) (text : Bytes) (hwrite : faults clock = .fails stored text) :
      EmbedOutcome index path capture files (.error error,
        ⟨Function.update (Function.update files (tempParquetPath path) (some parquet)) path
          (some ((pqcapBundle capture parquet).take stored)), clock + 1⟩)
  | returned (count : Int64) (clock : ℕ) (parquet : Bytes) (hparquet : index parquet) :
      EmbedOutcome index path capture files (.ok count,
        ⟨Function.update (Function.update (Function.update files (tempParquetPath path)
          (some parquet)) path (some ((faults clock).kept (pqcapBundle capture parquet))))
            (tempParquetPath path) ((faults (clock + 1)).leftover parquet), clock + 2⟩)

/-- From the metadata in the temporary file on: the rewrite of the capture and the removal. -/
theorem exec_rewrite_outcome {index : Bytes → Prop} {path capture parquet : Bytes}
    {files : Bytes → Option Bytes} (hcapture : files path = some capture)
    (hparquet : index parquet) (count : Int64) (clock : ℕ) :
    EmbedOutcome faults index path capture files (exec (do
      embedParquetInPqcap faults path (tempParquetPath path)
      remove faults (tempParquetPath path)
      pure count) ⟨Function.update files (tempParquetPath path) (some parquet), clock⟩) := by
  have hne := tempParquetPath_ne path
  have hpath : Function.update files (tempParquetPath path) (some parquet) path = some capture :=
    (Function.update_of_ne hne.symm _ _).trans hcapture
  have htemp : Function.update files (tempParquetPath path) (some parquet) (tempParquetPath path) =
    some parquet := Function.update_self _ _ _
  rw [exec_bind]
  rcases exec_embedParquetInPqcap_outcome faults
    (show (⟨Function.update files (tempParquetPath path) (some parquet), clock⟩ : World).files path =
      some capture from hpath) htemp with
    ⟨error, clock, hembed, hfaults⟩ | ⟨error, clock, stored, text, hfails, hembed⟩ | ⟨clock, hembed⟩
  · rw [hembed]
    have hwhole : partialFile (files (tempParquetPath path)) parquet (parquet.length + 2) =
        some parquet := congrArg some List.take_length
    have h : EmbedOutcome faults index path capture files (.error error, ⟨Function.update files
        (tempParquetPath path) (partialFile (files (tempParquetPath path)) parquet
          (parquet.length + 2)), clock⟩) :=
      .temporaryLeft error clock parquet hparquet (parquet.length + 2) hfaults
    rwa [hwhole] at h
  · rw [hembed]
    exact .rewriteCut error clock parquet hparquet stored text hfails
  · rw [hembed]
    have hleft : Function.update (Function.update files (tempParquetPath path) (some parquet)) path
        (some ((faults clock).kept (pqcapBundle capture parquet))) (tempParquetPath path) =
      some parquet := (Function.update_of_ne hne _ _).trans htemp
    have hremove := exec_remove_outcome faults (show (⟨Function.update (Function.update files
      (tempParquetPath path) (some parquet)) path (some ((faults clock).kept
        (pqcapBundle capture parquet))), clock + 1⟩ : World).files (tempParquetPath path) =
          some parquet from hleft)
    dsimp only
    rw [exec_bind_ok _ hremove]
    exact .returned count clock parquet hparquet

/-- Whatever fails, the part that writes leaves one of the outcomes. -/
theorem exec_writeIndex_outcome (hdb : db.WritesParquet) {path capture : Bytes}
    {files : Bytes → Option Bytes} (hcapture : files path = some capture)
    {rows : List PacketRowData} {locs : List PacketLocation} (hlength : rows.length = locs.length)
    {linktype : UInt16} {index : Bytes → Prop} (hindex : ∀ parquet,
      db.readParquet parquet = some (indexRows rows locs linktype) → index parquet) (address : ℕ)
    (count : Int64) (clock : ℕ) :
    EmbedOutcome faults index path capture files (exec (do
      writeIndex faults db path rows locs linktype address
      pure count) ⟨files, clock⟩) := by
  have hmetadata := exec_writeMetadata_outcome faults hdb (tempParquetPath path) hlength hindex
    address ⟨files, clock⟩
  simp only [writeIndex, bind_assoc]
  rw [exec_bind]
  generalize exec (writeMetadataParquetViaSQL faults db (tempParquetPath path) rows locs linktype
    address) ⟨files, clock⟩ = run at hmetadata
  cases hmetadata with
  | untouched error clock => exact .untouched error clock
  | cut error clock parquet hparquet stored hfaults =>
    exact .temporaryLeft error clock parquet hparquet stored hfaults
  | written clock parquet hparquet => exact exec_rewrite_outcome faults hcapture hparquet count clock

end Outcomes

section Calls

variable {faults : Schedule} {fs : World → VirtualFileSystem} {db : Database}
  {light : LightPcapNg} {pathIn capture : Bytes} {world : World}

/-- The Parquet file holds the index of the capture at the path: one row for each of its packets. -/
def IndexesCapture (db : Database) (light : LightPcapNg) (files : Bytes → Option Bytes)
    (path capture parquet : Bytes) : Prop :=
  ∃ rows, captureFeatures db light path files = .ok rows ∧
    rows.length = (scanPacketLocations capture).length ∧
      db.readParquet parquet =
        some (indexRows rows (scanPacketLocations capture) (defaultLinktype rows))

/-- Whatever fails, a call on a capture leaves one of the outcomes. -/
theorem exec_embedPqcapIndex_outcome (faults : Schedule) (light : LightPcapNg)
    (hdb : db.WritesParquet) (hfs : ServesFiles fs) (hfile : FitsFile capture)
    (hcapture : world.files (db.expandPath pathIn) = some capture) (address : ℕ) :
    EmbedOutcome faults (IndexesCapture db light world.files (db.expandPath pathIn) capture)
      (db.expandPath pathIn) capture world.files
      (exec (embedPqcapIndex faults fs db light pathIn address) world) := by
  rcases exec_embedPqcapIndex_gates faults hfs hfile hcapture address with
    ⟨error, clock, hthrows⟩ | ⟨rows, clock, -, hrows, hcount, hexec⟩
  · rw [hthrows]
    exact .untouched error clock
  · rw [hexec]
    exact exec_writeIndex_outcome faults hdb hcapture hcount
      (fun _ hread => ⟨rows, hrows, hcount, hread⟩) address _ clock

/-- A call on a path without a file throws and changes no file, whatever fails. -/
theorem exec_embedPqcapIndex_missing (faults : Schedule) (fs : World → VirtualFileSystem)
    (light : LightPcapNg) (hmissing : world.files (db.expandPath pathIn) = none) (address : ℕ) :
    ∃ error clock, exec (embedPqcapIndex faults fs db light pathIn address) world =
      (.error error, ⟨world.files, clock⟩) := by
  have hplain : ∃ result, exec (ensurePlainCaptureAt faults fs (db.expandPath pathIn)) world =
      (result, ⟨world.files, world.clock + 1⟩) := by
    rw [ensurePlainCaptureAt, exec_bind, exec_tick_outcome]
    cases faults world.clock with
    | fails stored text => exact ⟨_, rfl⟩
    | succeeds => exact ⟨_, rfl⟩
  obtain ⟨plain, hplain⟩ := hplain
  rw [embedPqcapIndex]
  cases plain with
  | error error => exact ⟨error, _, exec_bind_error _ hplain⟩
  | ok _ =>
    rw [exec_bind_ok _ hplain]
    obtain ⟨fetched, clock, hfetched, hrows, -⟩ := exec_fetchPacketFeatures faults db light
      (db.expandPath pathIn) ⟨world.files, world.clock + 1⟩
    cases fetched with
    | error error => exact ⟨error, clock, exec_bind_error _ hfetched⟩
    | ok rows =>
      have hread := hrows rows rfl
      rw [captureFeatures, selectFeatures, readText_quoted] at hread
      simp only [hmissing] at hread
      cases hread

/-- A call that throws leaves every file as it was; one that returns leaves the capture's bytes
followed by the two blocks of its index, and no temporary file. -/
def AllOrNothing (index : Bytes → Prop) (path capture : Bytes) (files : Bytes → Option Bytes)
    (run : Except Exception Int64 × World) : Prop :=
  (∀ error, run.1 = .error error → run.2.files = files) ∧
    ∀ count, run.1 = .ok count →
      (∃ parquet, index parquet ∧ run.2.files path = some (pqcapBundle capture parquet)) ∧
        run.2.files (tempParquetPath path) = none

/-- A run that is all or nothing leaves no capture empty. -/
theorem AllOrNothing.not_emptied {index : Bytes → Prop} {path capture : Bytes}
    {files : Bytes → Option Bytes} {run : Except Exception Int64 × World}
    (h : AllOrNothing index path capture files run) (hcapture : files path = some capture)
    (hnonempty : capture ≠ []) : run.2.files path ≠ some [] := by
  obtain ⟨hnothing, hall⟩ := h
  intro hempty
  cases hresult : run.1 with
  | error error =>
    rw [hnothing error hresult, hcapture] at hempty
    exact hnonempty (Option.some.inj hempty)
  | ok count =>
    obtain ⟨⟨parquet, -, hbundle⟩, -⟩ := hall count hresult
    exact pqcapBundle_ne_nil capture parquet (Option.some.inj (hbundle.symm.trans hempty))

/-- Without faults the outcomes are all or nothing. -/
theorem EmbedOutcome.allOrNothing {index : Bytes → Prop} {path : Bytes}
    {files : Bytes → Option Bytes} {run : Except Exception Int64 × World}
    (h : EmbedOutcome faults index path capture files run) (hfaults : NoFaults faults) :
    AllOrNothing index path capture files run := by
  cases h with
  | untouched error clock => exact ⟨fun _ _ => rfl, fun _ hcount => (by cases hcount)⟩
  | temporaryLeft error clock parquet hparquet stored hnot => exact absurd hfaults hnot
  | rewriteCut error clock parquet hparquet stored text hwrite =>
    exact absurd hfaults (not_noFaults hwrite)
  | returned count clock parquet hparquet =>
    refine ⟨fun _ herror => (by cases herror), fun _ _ => ⟨⟨parquet, hparquet, ?_⟩, ?_⟩⟩
    · dsimp only
      rw [Function.update_of_ne (tempParquetPath_ne path).symm, Function.update_self,
        hfaults clock]
      rfl
    · dsimp only
      rw [Function.update_self, hfaults (clock + 1)]
      rfl

/-- What a call leaves, whatever fails, and that it is all or nothing when nothing fails. -/
theorem embedPqcapIndex_leaves (faults : Schedule) (light : LightPcapNg) (hdb : db.WritesParquet)
    (hfs : ServesFiles fs) (hfile : FitsFile capture)
    (hcapture : world.files (db.expandPath pathIn) = some capture) (address : ℕ) :
    EmbedOutcome faults (IndexesCapture db light world.files (db.expandPath pathIn) capture)
        (db.expandPath pathIn) capture world.files
        (exec (embedPqcapIndex faults fs db light pathIn address) world) ∧
      (NoFaults faults →
        AllOrNothing (IndexesCapture db light world.files (db.expandPath pathIn) capture)
          (db.expandPath pathIn) capture world.files
          (exec (embedPqcapIndex faults fs db light pathIn address) world)) := by
  have houtcome := exec_embedPqcapIndex_outcome faults light hdb hfs hfile hcapture address
  exact ⟨houtcome, houtcome.allOrNothing⟩

end Calls

/-- The write of the bundle of a capture with one packet fails before it has stored a byte. -/
def fullDisk : Schedule := fun step =>
  if step = 14 then .fails 0 (ascii "No space left on device") else .succeeds

/-- What a call on the capture of one packet leaves on a full disk, and without faults. -/
theorem embedPqcapIndex_leaves_sample :
    EmbedOutcome fullDisk (IndexesCapture memoryDatabase blockFiles
          (worldOf [0x61] (oneCapture 1)).files (memoryDatabase.expandPath [0x61]) (oneCapture 1))
        (memoryDatabase.expandPath [0x61]) (oneCapture 1) (worldOf [0x61] (oneCapture 1)).files
        (exec (embedPqcapIndex fullDisk localFiles memoryDatabase blockFiles [0x61] 0)
          (worldOf [0x61] (oneCapture 1))) ∧
      AllOrNothing (IndexesCapture memoryDatabase blockFiles
          (worldOf [0x61] (oneCapture 1)).files (memoryDatabase.expandPath [0x61]) (oneCapture 1))
        (memoryDatabase.expandPath [0x61]) (oneCapture 1) (worldOf [0x61] (oneCapture 1)).files
        (exec (embedPqcapIndex (fun _ => .succeeds) localFiles memoryDatabase blockFiles [0x61] 0)
          (worldOf [0x61] (oneCapture 1))) :=
  ⟨(embedPqcapIndex_leaves fullDisk blockFiles memoryDatabase_writesParquet localFiles_serves
      (by decide +kernel) (worldOf_files [0x61] (oneCapture 1)) 0).1,
    (embedPqcapIndex_leaves (fun _ => .succeeds) blockFiles memoryDatabase_writesParquet
      localFiles_serves (by decide +kernel) (worldOf_files [0x61] (oneCapture 1)) 0).2
        fun _ => rfl⟩

/-- On a full disk the capture is left empty. -/
theorem fullDisk_empties_capture :
    (exec (embedPqcapIndex fullDisk localFiles memoryDatabase blockFiles [0x61] 0)
      (worldOf [0x61] (oneCapture 1))).2.files (memoryDatabase.expandPath [0x61]) =
        some [] := by
  decide +kernel

/-- A call on a full disk is neither all nor nothing. -/
theorem embedPqcapIndex_not_allOrNothing :
    ¬ ∀ (db : Database) (light : LightPcapNg) (fs : World → VirtualFileSystem)
      (pathIn capture : Bytes) (world : World) (address : ℕ) (faults : Schedule),
        db.WritesParquet → ServesFiles fs → FitsFile capture →
        world.files (db.expandPath pathIn) = some capture →
        AllOrNothing (IndexesCapture db light world.files (db.expandPath pathIn) capture)
          (db.expandPath pathIn) capture world.files
          (exec (embedPqcapIndex faults fs db light pathIn address) world) := by
  intro h
  have hall := h memoryDatabase blockFiles localFiles [0x61] (oneCapture 1)
    (worldOf [0x61] (oneCapture 1)) 0 fullDisk memoryDatabase_writesParquet localFiles_serves
    (by decide +kernel) (worldOf_files [0x61] (oneCapture 1))
  exact hall.not_emptied (worldOf_files [0x61] (oneCapture 1)) (by decide +kernel)
    fullDisk_empties_capture

end PqcapReader
