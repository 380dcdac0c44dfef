import PqcapReader.ReadPqcap
import PqcapReader.SharedCapture
import PqcapReader.Library.RelyGuarantee

/-!
# Queries beside a call that writes an index

`read_pqcap` asks for the size of the file, reads its last bytes, and reads the embedded file
behind them, in one call after another, while `EmbedPqcapIndex` may truncate the capture and
write the bundle in its place, piece by piece. Where no shorter part of the bundle ends with a
footer, a query that sees any of this fails, or it sees the bundle only: the size of the file
that the locator is read from is the size of the bundle, or there is no locator at its end.
-/

namespace PqcapReader

open ByteCodec Effects Simulation Threads Threads.Program

section Calls

variable (fs : World → VirtualFileSystem)

/-- A call that changes no file. -/
def lookup {A : Type} (answer : World → Except Exception A) : Action A := do
  let world ← get
  fromExcept (answer world)

/-- An open handle on a path serves the file that is there by the time of a call. -/
def serving (path : Bytes) (handle : FileHandle) (world : World) : FileHandle :=
  match fs world path fileFlagsRead with
  | .ok (some now) => now
  | _ => handle

/-- The open of `PqcapOffsetSizeFunction`. -/
def openLocated (path : Bytes) (world : World) : Except Exception FileHandle :=
  match fs world path fileFlagsRead with
  | .error error => .error error
  | .ok none => .error (.ioException (ascii "pqcap_offset_size: could not open " ++ path))
  | .ok (some handle) => .ok handle

/-- `PqcapOffsetSizeFunction` on one path. The size is asked first, and the last bytes are read
later. -/
def pqcapOffsetSizeSteps (path : Bytes) : Steps Bytes := do
  let handle ← atomic (lookup (openLocated fs path))
  let size ← atomic (lookup fun world => .ok (serving fs path handle world).getFileSize)
  atomic (lookup fun world =>
    parsePqcapMetadataLocation { serving fs path handle world with getFileSize := size } path)

variable {Result : Type}

/-- A reader on a sub-file handle over a path, one call for each request. -/
def interactSteps (path : Bytes) :
    Client FileRequest FileReply Result → PqcapSubFileHandle → Steps Result
  | .stop result, _ => pure result
  | .ask request next, handle => do
    let (reply, handle) ← atomic (lookup fun world =>
      { handle with innerHandle := serving fs path handle.innerHandle world }.operate request)
    interactSteps path (next reply) handle

variable (reader : Client FileRequest FileReply Result)

/-- `read_parquet` on a sub-file path over a path. -/
def readSubFilesSteps (path subFile : Bytes) : Steps (List Result) :=
  (glob subFile).mapM fun found => do
    let handle ← atomic (lookup fun world => openFile found fileFlagsRead (some ⟨some (fs world)⟩))
    interactSteps fs path reader handle

/-- `SELECT * FROM read_pqcap(path)`. -/
def readPqcapSteps (path : Bytes) : Steps (List Result) := do
  let location ← pqcapOffsetSizeSteps fs path
  readSubFilesSteps fs reader path (locatedPath location path)

end Calls

@[simp] theorem exec_lookup {A : Type} (answer : World → Except Exception A) (world : World) :
    exec (lookup answer) world = (answer world, world) := rfl

section Performed

variable (fs : World → VirtualFileSystem) {Result : Type}

theorem serving_eq {path : Bytes} {now : FileHandle} {world : World}
    (h : fs world path fileFlagsRead = .ok (some now)) (handle : FileHandle) :
    serving fs path handle world = now := by
  rw [serving, h]

/-- Without interruption the steps are `PqcapOffsetSizeFunction`. -/
theorem pqcapOffsetSizeSteps_performs (path : Bytes) :
    Performs (pqcapOffsetSizeSteps fs path) (lookup fun world => pqcapOffsetSize (fs world) path) := by
  intro world
  rw [pqcapOffsetSizeSteps, exec_perform_bind, exec_bind, exec_perform_atomic, exec_lookup,
    exec_lookup, openLocated, pqcapOffsetSize]
  cases hopen : fs world path fileFlagsRead with
  | error error => rfl
  | ok found =>
    cases found with
    | none => rfl
    | some handle =>
      simp only [exec_perform_bind, exec_bind, exec_perform_atomic, exec_lookup,
        serving_eq fs hopen]
      rfl

/-- No operation of a sub-file handle exchanges the inner handle. -/
theorem PqcapSubFileHandle.innerHandle_of_operate {handle next : PqcapSubFileHandle}
    {request : FileRequest} {reply : FileReply} (h : handle.operate request = .ok (reply, next)) :
    next.innerHandle = handle.innerHandle := by
  cases request with
  | read nrBytes =>
    rw [operate, except_bind_eq_ok] at h
    obtain ⟨⟨data, returned, moved⟩, hread, h⟩ := h
    cases h
    rw [read] at hread
    split at hread
    · cases hread
      rfl
    · dsimp only at hread
      split at hread
      · cases hread
        rfl
      · obtain ⟨data, -, hread⟩ := except_bind_eq_ok.mp hread
        cases hread
        rfl
  | readAt nrBytes location =>
    rw [operate, except_bind_eq_ok] at h
    obtain ⟨data, -, h⟩ := h
    cases h
    rfl
  | seek location =>
    cases h
    rfl
  | reset =>
    cases h
    rfl
  | seekPosition =>
    cases h
    rfl
  | getFileSize =>
    cases h
    rfl

/-- Without interruption a reader asks the handle as it was opened. -/
theorem exec_interactSteps {path : Bytes} {world : World}
    (reader : Client FileRequest FileReply Result) (handle : PqcapSubFileHandle)
    (hopen : fs world path fileFlagsRead = .ok (some handle.innerHandle)) :
    exec (interactSteps fs path reader handle).perform world =
      ((reader.interact PqcapSubFileHandle.operate id handle).map Prod.fst, world) := by
  induction reader generalizing handle with
  | stop result => rfl
  | ask request next ih =>
    rw [interactSteps, exec_perform_bind, exec_bind, exec_perform_atomic, exec_lookup,
      serving_eq fs hopen, Client.interact]
    cases hoperate : handle.operate request with
    | error error => rfl
    | ok answered =>
      obtain ⟨reply, moved⟩ := answered
      exact ih reply moved (hopen.trans (by
        rw [PqcapSubFileHandle.innerHandle_of_operate hoperate]))

/-- Every location that is found is printed as two numbers, whatever the handle does. -/
theorem printed_of_parse {handle : FileHandle} {source location : Bytes}
    (h : parsePqcapMetadataLocation handle source = .ok location) :
    ∃ offset size : UInt64,
      location = decimal offset.toNat ++ ascii "_" ++ decimal size.toNat := by
  rw [parsePqcapMetadataLocation] at h
  split at h
  · cases h
  · obtain ⟨tail, -, h⟩ := except_bind_eq_ok.mp h
    split at h
    · cases h
    · split at h
      · cases h
      · split at h
        · cases h
        · exact ⟨_, _, (Except.ok.inj h).symm⟩

/-- Without interruption the one match of a located path is opened and read. -/
theorem exec_readSubFilesSteps (reader : Client FileRequest FileReply Result) (path : Bytes)
    (offset size : UInt64) (world : World) :
    exec (readSubFilesSteps fs reader path
        (locatedPath (decimal offset.toNat ++ ascii "_" ++ decimal size.toNat) path)).perform world =
      (readSubFiles (fs world) reader
        (locatedPath (decimal offset.toNat ++ ascii "_" ++ decimal size.toNat) path), world) := by
  rw [readSubFilesSteps, readSubFiles, glob_locatedPath]
  simp only [List.mapM_cons, List.mapM_nil, exec_perform_bind, exec_bind, exec_perform_atomic,
    exec_lookup]
  cases hopened : openFile (locatedPath (decimal offset.toNat ++ ascii "_" ++ decimal size.toNat)
      path) fileFlagsRead (some ⟨some (fs world)⟩) with
  | error error => rfl
  | ok handle =>
    obtain ⟨-, -, inner, hinner, -, rfl⟩ := openFile_printed_eq_ok_iff.mp hopened
    have hread := exec_interactSteps fs reader ⟨inner, offset, size, 0⟩ hinner
    simp only [hread, Bind.bind, Except.bind]
    cases reader.interact PqcapSubFileHandle.operate id ⟨inner, offset, size, 0⟩ with
    | error error => rfl
    | ok read => rfl

/-- Without interruption the steps are the query. -/
theorem readPqcapSteps_performs (reader : Client FileRequest FileReply Result) (path : Bytes) :
    Performs (readPqcapSteps fs reader path)
      (lookup fun world => readPqcap (fs world) reader path) := by
  intro world
  rw [readPqcapSteps, exec_perform_bind, exec_bind, pqcapOffsetSizeSteps_performs fs path world,
    exec_lookup, exec_lookup, readPqcap, readPqcapPath]
  cases hlocation : pqcapOffsetSize (fs world) path with
  | error error => rfl
  | ok location =>
    obtain ⟨found, -, hparse⟩ := except_bind_eq_ok.mp hlocation
    cases found with
    | none => cases hparse
    | some handle =>
      obtain ⟨offset, size, rfl⟩ := printed_of_parse hparse
      exact exec_readSubFilesSteps fs reader path offset size world

end Performed

/-- The host opens the files of the world for seeking, and a read past the end of one is an error. -/
def OpensExactly (fs : World → VirtualFileSystem) : Prop :=
  ∀ (world : World) (path content : Bytes), FitsFile content → world.files path = some content →
    ∃ handle, fs world path fileFlagsRead = .ok (some handle) ∧ handle.canSeek = true ∧
      handle.Exact content

theorem OpensExactly.serves {fs : World → VirtualFileSystem} (h : OpensExactly fs) :
    ServesFiles fs := by
  intro world path content hfile hcontent
  obtain ⟨handle, hopen, -, hexact⟩ := h world path content hfile hcontent
  exact ⟨handle, hopen, hexact.toHolds⟩

theorem localFiles_opensExactly : OpensExactly localFiles := by
  intro world path content hfile hcontent
  refine ⟨FileHandle.ofContent content, ?_, rfl, FileHandle.ofContent_exact content hfile⟩
  rw [localFiles, hcontent]

/-- What a call may do to its capture in one step: nothing, or, until the bundle is there, leave a
beginning of the bundle in its place. -/
def Rewrites (path bundle : Bytes) (before after : World) : Prop :=
  after.files path = before.files path ∨
    before.files path ≠ some bundle ∧ ∃ n, after.files path = some (bundle.take n)

/-- What others find at the path of the capture in the meantime; the capture itself is a beginning of
its bundle. -/
def Meantime (path bundle : Bytes) (world : World) : Prop :=
  ∃ n, world.files path = some (bundle.take n)

/-- The bundle is there. -/
def Written (path bundle : Bytes) (world : World) : Prop := world.files path = some bundle

/-- No shorter part of the bundle ends with a footer. -/
def OneFooter (bundle : Bytes) : Prop :=
  ∀ n < bundle.length, endsWithFooter (bundle.take n) = false

instance (bundle : Bytes) : Decidable (OneFooter bundle) :=
  inferInstanceAs (Decidable (∀ n < bundle.length, endsWithFooter (bundle.take n) = false))

section Stages

variable {path bundle : Bytes}

theorem meantime_stable : Stable (Rewrites path bundle) (Meantime path bundle) := by
  rintro before after hbefore (hsame | ⟨-, hafter⟩)
  · rwa [Meantime, hsame]
  · exact hafter

/-- A bundle that is there stays there. -/
theorem written_stable : Stable (Rewrites path bundle) (Written path bundle) := by
  rintro before after hbefore (hsame | ⟨hother, -⟩)
  · exact hsame.trans hbefore
  · exact absurd hbefore hother

theorem meantime_of_capture {capture parquet : Bytes} {world : World}
    (h : world.files path = some capture) : Meantime path (pqcapBundle capture parquet) world := by
  refine ⟨capture.length, ?_⟩
  rw [h, pqcapBundle_eq_append, List.take_left]

end Stages

/-- A call that changes no file is an answer from one moment. -/
theorem ensures_lookup {A : Type} {rely : World → World → Prop} {holds : World → Prop}
    {good : Except Exception A → World → Prop} {answer : World → Except Exception A}
    (hholds : Stable rely holds) (hgood : ∀ result, Stable rely (good result))
    (h : ∀ world, holds world → good (answer world) world) :
    Ensures rely Eq holds (atomic (lookup answer)) good :=
  Ensures.atomic hholds hgood fun world hworld => ⟨rfl, h world hworld⟩

/-- A locator is read at the end that the size names, if the file reaches so far by then. -/
theorem footer_of_parse {handle : FileHandle} {content : Bytes} (hexact : handle.Exact content)
    {size : Int64} {n : ℕ} (hsize : size.toInt = n) {source location : Bytes}
    (h : parsePqcapMetadataLocation { handle with getFileSize := size } source = .ok location) :
    44 ≤ n ∧ n ≤ content.length ∧
      (parseFooterLocator (slice content (n - 44) 44)).isSome = true := by
  have hbound := size.toInt_lt
  have hword := toNat_toUInt64 size (by omega)
  have hconst : pqcapFooterBlockSize.toNat = 44 := rfl
  have hrequest : pqcapFooterBlockSize.toInt64.toInt = 44 := rfl
  rw [parsePqcapMetadataLocation] at h
  split at h
  · cases h
  · rename_i hlarge
    have hlong : 44 ≤ n := by
      have hnot : ¬ size.toUInt64 < pqcapFooterBlockSize := hlarge
      rw [UInt64.lt_iff_toNat_lt] at hnot
      omega
    have hlocation : (size.toUInt64 - pqcapFooterBlockSize).toNat = n - 44 := by
      rw [UInt64.toNat_sub_of_le _ _ (UInt64.le_iff_toNat_le.mpr (by omega))]
      omega
    obtain ⟨tail, hread, h⟩ := except_bind_eq_ok.mp h
    by_cases hinside : n ≤ content.length
    · have hslice := hexact.read pqcapFooterBlockSize.toInt64 (size.toUInt64 - pqcapFooterBlockSize)
        (by omega) (by omega)
      rw [hlocation, hrequest] at hslice
      obtain rfl := Except.ok.inj (hread.symm.trans hslice)
      refine ⟨hlong, hinside, ?_⟩
      cases hparse : parseFooterLocator (slice content (n - 44) 44) with
      | none =>
        have hnone : parseFooterLocator (slice content (n - 44) (44 : ℤ).toNat) = none := hparse
        simp only [hnone] at h
        cases h
      | some loc => rfl
    · obtain ⟨error, houtside⟩ := hexact.outside pqcapFooterBlockSize.toInt64
        (size.toUInt64 - pqcapFooterBlockSize) (by omega) (by omega)
      cases hread.symm.trans houtside

section Queries

variable {fs : World → VirtualFileSystem} (hfs : OpensExactly fs) {path capture parquet : Bytes}
  (hparquet : parquet ≠ []) (hfits : FitsFile (pqcapBundle capture parquet))

include hfs hfits

theorem opens_of_meantime {world : World}
    (hworld : Meantime path (pqcapBundle capture parquet) world) :
    ∃ n handle, world.files path = some ((pqcapBundle capture parquet).take n) ∧
      fs world path fileFlagsRead = .ok (some handle) ∧ handle.canSeek = true ∧
        handle.Exact ((pqcapBundle capture parquet).take n) := by
  obtain ⟨n, hcontent⟩ := hworld
  have hshort : FitsFile ((pqcapBundle capture parquet).take n) :=
    lt_of_le_of_lt (List.length_take_le' n _) hfits
  obtain ⟨handle, hopen, hseek, hexact⟩ := hfs world path _ hshort hcontent
  exact ⟨n, handle, hcontent, hopen, hseek, hexact⟩

/-- Behind the size of a shorter part no locator is read, whatever the file has become. -/
theorem parse_of_meantime (hone : OneFooter (pqcapBundle capture parquet)) {world : World}
    (hworld : Meantime path (pqcapBundle capture parquet) world) (handle : FileHandle)
    {size : Int64} {n : ℕ} (hsize : size.toInt = n) (hn : n < (pqcapBundle capture parquet).length)
    (location : Bytes) :
    parsePqcapMetadataLocation { serving fs path handle world with getFileSize := size } path ≠
      .ok location := by
  intro h
  obtain ⟨m, now, -, hopen, -, hexact⟩ := opens_of_meantime hfs hfits hworld
  rw [serving_eq fs hopen] at h
  obtain ⟨hlong, hinside, hfooter⟩ := footer_of_parse hexact hsize h
  rw [List.length_take] at hinside
  -- The last bytes before that size are those of the shorter part.
  have hkept : slice ((pqcapBundle capture parquet).take m) (n - 44) 44 =
      slice ((pqcapBundle capture parquet).take n) (n - 44) 44 := by
    rw [slice_take _ (by omega), slice_take _ (by omega)]
  have hplain := hone n hn
  have hlength : ((pqcapBundle capture parquet).take n).length = n := by
    rw [List.length_take]
    omega
  rw [endsWithFooter, hlength, decide_eq_true hlong, ← hkept, hfooter] at hplain
  contradiction

include hparquet

/-- Behind the size of the bundle the location of the embedded file is read. -/
theorem parse_of_written {world : World}
    (hworld : Written path (pqcapBundle capture parquet) world) (handle : FileHandle) {size : Int64}
    (hsize : size.toInt = (pqcapBundle capture parquet).length) :
    parsePqcapMetadataLocation { serving fs path handle world with getFileSize := size } path =
      .ok (printedLocation capture parquet) := by
  obtain ⟨now, hopen, -, hexact⟩ := hfs world path _ hfits hworld
  have hholds : ({ now with getFileSize := size } : FileHandle).Holds
      (pqcapBundle capture parquet) := ⟨hsize, hexact.read⟩
  rw [serving_eq fs hopen]
  exact parsePqcapMetadataLocation_bundle hparquet hfits hholds path

/-- The last bytes are read behind a size that was asked for before. -/
theorem tail_ensures (handle : FileHandle) (size : Int64)
    (hsize : size.toInt = (pqcapBundle capture parquet).length) :
    Ensures (Rewrites path (pqcapBundle capture parquet)) Eq
      (Written path (pqcapBundle capture parquet))
      (atomic (lookup fun world => parsePqcapMetadataLocation
        { serving fs path handle world with getFileSize := size } path))
      fun result world => result = .ok (printedLocation capture parquet) ∧
        Written path (pqcapBundle capture parquet) world :=
  ensures_lookup written_stable (fun _ => (Stable.const _).and written_stable) fun _ hworld =>
    ⟨parse_of_written hfs hparquet hfits hworld handle hsize, hworld⟩

/-- A size that is asked for in the meantime is one behind which nothing is found, or the bundle is
there. -/
theorem pqcapOffsetSizeSteps_ensures (hone : OneFooter (pqcapBundle capture parquet)) :
    Ensures (Rewrites path (pqcapBundle capture parquet)) Eq
      (Meantime path (pqcapBundle capture parquet)) (pqcapOffsetSizeSteps fs path)
      fun result world => ∀ location, result = .ok location →
        location = printedLocation capture parquet ∧
          Written path (pqcapBundle capture parquet) world := by
  have hsized (handle : FileHandle) : Ensures (Rewrites path (pqcapBundle capture parquet))
      Eq (Meantime path (pqcapBundle capture parquet))
      (atomic (lookup fun world => .ok (serving fs path handle world).getFileSize))
      fun result world => ∃ size, result = .ok size ∧
        (size.toInt = (pqcapBundle capture parquet).length ∧
            Written path (pqcapBundle capture parquet) world ∨
          (∃ n : ℕ, size.toInt = n ∧ n < (pqcapBundle capture parquet).length) ∧
            Meantime path (pqcapBundle capture parquet) world) := by
    refine ensures_lookup meantime_stable (fun _ => .ex fun _ => (Stable.const _).and
      (((Stable.const _).and written_stable).or ((Stable.const _).and meantime_stable))) ?_
    intro world hworld
    obtain ⟨n, now, hfile, hopen, -, hexact⟩ := opens_of_meantime hfs hfits hworld
    refine ⟨now.getFileSize, by rw [serving_eq fs hopen], ?_⟩
    have hsize := hexact.size
    rcases Nat.lt_or_ge n (pqcapBundle capture parquet).length with hshort | hwhole
    · rw [List.length_take_of_le hshort.le] at hsize
      exact .inr ⟨⟨n, hsize, hshort⟩, hworld⟩
    · rw [List.take_of_length_le hwhole] at hsize hfile
      exact .inl ⟨hsize, hfile⟩
  refine (ensures_lookup meantime_stable (fun _ => meantime_stable) fun _ hworld => hworld).bind
    (fun handle => (hsized handle).bind (fun size => ?_) ?_) fun _ _ _ _ h => nomatch h
  · rintro world ⟨found, hfound, hstage⟩
    obtain rfl := Except.ok.inj hfound
    rcases hstage with ⟨hsize, hworld⟩ | ⟨⟨n, hsize, hn⟩, hworld⟩
    · refine ((tail_ensures hfs hparquet hfits handle size hsize).post ?_) world hworld
      rintro _ last ⟨rfl, hlast⟩ location hlocation
      exact ⟨(Except.ok.inj hlocation).symm, hlast⟩
    · refine (ensures_lookup meantime_stable (fun _ => .all fun _ => .imp fun _ =>
        (Stable.const _).and written_stable) ?_) world hworld
      intro world hworld location hlocation
      exact absurd hlocation (parse_of_meantime hfs hfits hone hworld handle hsize hn location)
  · rintro error world ⟨size, hsize, -⟩
    cases hsize

/-- Where the bundle is there, the location is found. -/
theorem pqcapOffsetSizeSteps_written :
    Ensures (Rewrites path (pqcapBundle capture parquet)) Eq
      (Written path (pqcapBundle capture parquet)) (pqcapOffsetSizeSteps fs path)
      fun result world => result = .ok (printedLocation capture parquet) ∧
        Written path (pqcapBundle capture parquet) world := by
  have hopened : Ensures (Rewrites path (pqcapBundle capture parquet)) Eq
      (Written path (pqcapBundle capture parquet)) (atomic (lookup (openLocated fs path)))
      fun result world => (∃ handle, result = .ok handle ∧ True) ∧
        Written path (pqcapBundle capture parquet) world := by
    refine ensures_lookup written_stable (fun _ => (Stable.const _).and written_stable) ?_
    intro world hworld
    obtain ⟨now, hopen, -⟩ := hfs world path _ hfits hworld
    exact ⟨⟨now, by rw [openLocated, hopen], trivial⟩, hworld⟩
  have hsized (handle : FileHandle) : Ensures (Rewrites path (pqcapBundle capture parquet))
      Eq (Written path (pqcapBundle capture parquet))
      (atomic (lookup fun world => .ok (serving fs path handle world).getFileSize))
      fun result world =>
        (∃ size, result = .ok size ∧ size.toInt = (pqcapBundle capture parquet).length) ∧
          Written path (pqcapBundle capture parquet) world := by
    refine ensures_lookup written_stable (fun _ => (Stable.const _).and written_stable) ?_
    intro world hworld
    obtain ⟨now, hopen, -, hexact⟩ := hfs world path _ hfits hworld
    exact ⟨⟨now.getFileSize, by rw [serving_eq fs hopen], hexact.size⟩, hworld⟩
  exact hopened.bind_some fun handle _ => (hsized handle).bind_some fun size hsize =>
    tail_ensures hfs hparquet hfits handle size hsize

omit hparquet

/-- Once the bundle is there, a reader on its window is answered as by a file of the window. -/
theorem interactSteps_ensures {Result : Type} (reader : Client FileRequest FileReply Result)
    {file : MemoryFile} (hasks : reader.Asks MemoryFile.answer FileRequest.Sized file)
    {handle : PqcapSubFileHandle}
    (hrepresents : Represents (pqcapBundle capture parquet) handle file) :
    Ensures (Rewrites path (pqcapBundle capture parquet)) Eq
      (Written path (pqcapBundle capture parquet)) (interactSteps fs path reader handle)
      fun result world => result = .ok (reader.consult MemoryFile.answer file).1 ∧
        Written path (pqcapBundle capture parquet) world := by
  induction reader generalizing file handle with
  | stop result =>
    exact .done ((Stable.const _).and written_stable) fun _ hworld => ⟨rfl, hworld⟩
  | ask request next ih =>
    obtain ⟨hsized, hrest⟩ := hasks
    have hasked : Ensures (Rewrites path (pqcapBundle capture parquet)) Eq
        (Written path (pqcapBundle capture parquet))
        (atomic (lookup fun world => { handle with
          innerHandle := serving fs path handle.innerHandle world }.operate request))
        fun result world =>
          (∃ answered, result = .ok answered ∧
            answered.1 = (MemoryFile.answer file request).1 ∧
              Represents (pqcapBundle capture parquet) answered.2
                (MemoryFile.answer file request).2) ∧
            Written path (pqcapBundle capture parquet) world := by
      refine ensures_lookup written_stable (fun _ => (Stable.const _).and written_stable) ?_
      intro world hworld
      obtain ⟨now, hopen, -, hexact⟩ := hfs world path _ hfits hworld
      have hserved : Represents (pqcapBundle capture parquet)
          { handle with innerHandle := serving fs path handle.innerHandle world } file := by
        rw [serving_eq fs hopen]
        exact ⟨⟨hexact.toHolds, hrepresents.serves.inside, hrepresents.serves.fits⟩,
          hrepresents.window, hrepresents.cursor⟩
      obtain ⟨reply, moved, hoperate, ⟨hreply, -⟩, hmoved⟩ :=
        PqcapSubFileHandle.operate_simulates (pqcapBundle capture parquet) _ file request hserved
          hsized
      exact ⟨⟨(reply, moved), hoperate, hreply, hmoved⟩, hworld⟩
    refine hasked.bind_some ?_
    rintro ⟨reply, moved⟩ ⟨rfl, hmoved⟩
    exact ih _ hrest hmoved

/-- Once the bundle is there, its located path is read as the embedded file. -/
theorem readSubFilesSteps_ensures {Result : Type} (reader : Client FileRequest FileReply Result)
    (hasks : reader.Asks MemoryFile.answer FileRequest.Sized ⟨parquet, 0⟩) :
    Ensures (Rewrites path (pqcapBundle capture parquet)) Eq
      (Written path (pqcapBundle capture parquet))
      (readSubFilesSteps fs reader path (locatedPath (printedLocation capture parquet) path))
      fun result world => result = .ok [(reader.consult MemoryFile.answer ⟨parquet, 0⟩).1] ∧
        Written path (pqcapBundle capture parquet) world := by
  have hopened : Ensures (Rewrites path (pqcapBundle capture parquet)) Eq
      (Written path (pqcapBundle capture parquet))
      (atomic (lookup fun world => openFile (locatedPath (printedLocation capture parquet) path)
        fileFlagsRead (some ⟨some (fs world)⟩)))
      fun result world => (∃ handle, result = .ok handle ∧
        Represents (pqcapBundle capture parquet) handle ⟨parquet, 0⟩) ∧
          Written path (pqcapBundle capture parquet) world := by
    refine ensures_lookup written_stable (fun _ => (Stable.const _).and written_stable) ?_
    intro world hworld
    obtain ⟨inner, hopen, hseek, hexact⟩ := hfs world path _ hfits hworld
    exact ⟨openFile_bundle hfits hopen hseek hexact.toHolds, hworld⟩
  rw [readSubFilesSteps, glob_locatedPath, List.mapM_cons, List.mapM_nil]
  refine (hopened.bind_some fun handle hrepresents =>
    interactSteps_ensures hfs hfits reader hasks hrepresents).bind_ok ?_
  exact Ensures.done ((Stable.const _).and written_stable) fun _ hworld => ⟨rfl, hworld⟩

include hparquet

/-- A query that runs beside the rewriting fails, or it reads the embedded file. -/
theorem readPqcapSteps_ensures (hone : OneFooter (pqcapBundle capture parquet)) {Result : Type}
    (reader : Client FileRequest FileReply Result)
    (hasks : reader.Asks MemoryFile.answer FileRequest.Sized ⟨parquet, 0⟩) :
    Ensures (Rewrites path (pqcapBundle capture parquet)) Eq
      (Meantime path (pqcapBundle capture parquet)) (readPqcapSteps fs reader path)
      fun result world => ∀ results, result = .ok results →
        results = [(reader.consult MemoryFile.answer ⟨parquet, 0⟩).1] ∧
          Written path (pqcapBundle capture parquet) world := by
  refine (pqcapOffsetSizeSteps_ensures hfs hparquet hfits hone).bind (fun location => ?_)
    fun _ _ _ _ h => nomatch h
  intro world hlocated
  obtain ⟨rfl, hworld⟩ := hlocated location rfl
  refine ((readSubFilesSteps_ensures hfs hfits reader hasks).post ?_) world hworld
  rintro _ last ⟨rfl, hlast⟩ results hresults
  exact ⟨(Except.ok.inj hresults).symm, hlast⟩

/-- A query that begins when the bundle is there reads the embedded file. -/
theorem readPqcapSteps_written {Result : Type} (reader : Client FileRequest FileReply Result)
    (hasks : reader.Asks MemoryFile.answer FileRequest.Sized ⟨parquet, 0⟩) :
    Ensures (Rewrites path (pqcapBundle capture parquet)) Eq
      (Written path (pqcapBundle capture parquet)) (readPqcapSteps fs reader path)
      fun result world => result = .ok [(reader.consult MemoryFile.answer ⟨parquet, 0⟩).1] ∧
        Written path (pqcapBundle capture parquet) world :=
  (pqcapOffsetSizeSteps_written hfs hparquet hfits).bind_ok
    (readSubFilesSteps_ensures hfs hfits reader hasks)

end Queries

end PqcapReader
