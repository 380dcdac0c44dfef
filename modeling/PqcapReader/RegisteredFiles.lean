import PqcapReader.SubFileRefinement

/-!
# The sub-file system among the host's file systems

The host asks the registered sub-file system to open the paths that it can handle, and the
sub-file system asks the host in turn for the underlying path. That path may name a
sub-file again: a chain of windows opens to a handle on the innermost file's bytes, cut by
one window after the other.
-/

namespace PqcapReader

open ByteCodec

/-- An open sub-file as the host hands it out: `CanSeek`, `GetFileSize`, and the positional
`Read`. -/
def PqcapSubFileHandle.toFileHandle (h : PqcapSubFileHandle) : FileHandle where
  canSeek := true
  getFileSize := h.getFileSize
  read := h.readAt

/-- `PqcapSubFileSystem::Glob`, which looks at no file. -/
def glob (path : Bytes) : List Bytes :=
  if path.length ≥ 16 ∧ path.take 16 = subFilePrefix then [path] else []

/-- `PqcapSubFileSystem::FileExists`. -/
def fileExists (filename : Bytes) : Bool :=
  decide (filename.length ≥ 16) && decide (filename.take 16 = subFilePrefix)

/-- The host opens the paths that the registered sub-file system can handle through it, and is
itself the file system of the opener's context. -/
def RegistersSubFiles (fs : VirtualFileSystem) : Prop :=
  ∀ path flags, canHandleFile path = true →
    fs path flags =
      (openFile path flags (some ⟨some fs⟩)).map fun h => some h.toFileHandle

/-- A host over some files with the sub-file system registered, for paths that name sub-files up to
a depth. -/
def withSubFiles (files : VirtualFileSystem) : ℕ → VirtualFileSystem
  | 0 => files
  | depth + 1 => fun path flags =>
    if canHandleFile path then
      (openFile path flags (some ⟨some (withSubFiles files depth)⟩)).map fun h =>
        some h.toFileHandle
    else
      files path flags

/-- A host over some files with the sub-file system registered. -/
def registered (files : VirtualFileSystem) : VirtualFileSystem := fun path flags =>
  withSubFiles files path.length path flags

section Dispatch

variable {fs fs' : VirtualFileSystem} {path : Bytes} {flags : FileOpenFlags}

/-- What a path names lies behind its prefix. -/
theorem NamesWindow.length_lt {offset size : UInt64} {underlying : Bytes}
    (h : NamesWindow path offset size underlying) : underlying.length < path.length := by
  obtain ⟨offsetText, sizeText, -, -, rfl⟩ := h
  have hseparators : (ascii "!").length = 1 := by decide
  simp only [List.length_append]
  omega

/-- Opening a sub-file asks the host for the underlying path only. -/
theorem openFile_congr
    (h : ∀ underlying : Bytes, underlying.length < path.length →
      fs underlying flags = fs' underlying flags) :
    openFile path flags (some ⟨some fs⟩) = openFile path flags (some ⟨some fs'⟩) := by
  rw [openFile, openFile]
  split
  · rfl
  · dsimp only
    cases hparse : parseSubFilePath path with
    | error error => rfl
    | ok named =>
      obtain ⟨offset, size, underlying⟩ := named
      simp only [bind, Except.bind, h underlying (NamesWindow.of_parse hparse).length_lt]

/-- The file system to a depth, one step further down. -/
theorem withSubFiles_succ (files : VirtualFileSystem) (depth : ℕ) (path : Bytes)
    (flags : FileOpenFlags) :
    withSubFiles files (depth + 1) path flags =
      if canHandleFile path then
        (openFile path flags (some ⟨some (withSubFiles files depth)⟩)).map fun h =>
          some h.toFileHandle
      else
        files path flags := rfl

/-- The empty path names no sub-file. -/
theorem withSubFiles_nil (files : VirtualFileSystem) (depth : ℕ) (flags : FileOpenFlags) :
    withSubFiles files depth [] flags = files [] flags := by
  cases depth with
  | zero => rfl
  | succ depth => rfl

/-- Depths from the path's length on make no difference. -/
theorem withSubFiles_eq (files : VirtualFileSystem) {depth depth' : ℕ}
    (h : path.length ≤ depth) (h' : path.length ≤ depth') :
    withSubFiles files depth path flags = withSubFiles files depth' path flags := by
  induction depth generalizing depth' path with
  | zero =>
    obtain rfl := List.length_eq_zero_iff.mp (Nat.le_zero.mp h)
    rw [withSubFiles_nil, withSubFiles_nil]
  | succ depth ih =>
    cases depth' with
    | zero =>
      obtain rfl := List.length_eq_zero_iff.mp (Nat.le_zero.mp h')
      rw [withSubFiles_nil, withSubFiles_nil]
    | succ depth' =>
      rw [withSubFiles_succ, withSubFiles_succ, openFile_congr fun underlying hunder =>
        ih (show _ ≤ depth by omega) (show _ ≤ depth' by omega)]

/-- The host with the sub-file system registered asks it for the paths that it can handle. -/
theorem registered_registersSubFiles (files : VirtualFileSystem) :
    RegistersSubFiles (registered files) := by
  intro path flags hcan
  have hopen : openFile path flags (some ⟨some (withSubFiles files path.length)⟩) =
      openFile path flags (some ⟨some (registered files)⟩) :=
    openFile_congr fun underlying hunder => withSubFiles_eq files (by omega) (le_refl _)
  rw [registered, withSubFiles_eq files (le_refl _) (Nat.le_succ path.length), withSubFiles_succ,
    if_pos hcan, hopen]

/-- It opens the other paths as before. -/
theorem registered_of_not_canHandleFile (files : VirtualFileSystem)
    (hcan : canHandleFile path = false) : registered files path flags = files path flags := by
  rw [registered, withSubFiles_eq files (le_refl _) (Nat.le_succ path.length), withSubFiles_succ,
    hcan]
  rfl

end Dispatch

/-- A path that can be handled exists, and is its own only match, whatever characters stand in it;
the prefix alone exists as well but cannot be handled. -/
theorem fileExists_iff (path : Bytes) :
    (fileExists path = true ↔ canHandleFile path = true ∨ path = subFilePrefix) ∧
      glob path = if fileExists path then [path] else [] := by
  have hprefix : subFilePrefix.length = 16 := by decide
  have hexists : fileExists path = true ↔ path.length ≥ 16 ∧ path.take 16 = subFilePrefix := by
    rw [fileExists, Bool.and_eq_true, decide_eq_true_iff, decide_eq_true_iff]
  refine ⟨?_, ?_⟩
  · rw [hexists, canHandleFile, Bool.and_eq_true, decide_eq_true_iff, decide_eq_true_iff, hprefix]
    constructor
    · rintro ⟨hlong, hstart⟩
      by_cases hmore : path.length > 16
      · exact .inl ⟨hmore, hstart⟩
      · right
        rw [← hstart, List.take_of_length_le (by omega)]
    · rintro (⟨hlong, hstart⟩ | rfl)
      · exact ⟨by omega, hstart⟩
      · exact ⟨by omega, rfl⟩
  · rw [glob]
    by_cases h : path.length ≥ 16 ∧ path.take 16 = subFilePrefix
    · rw [if_pos h, if_pos (hexists.mpr h)]
    · rw [if_neg h, if_neg (mt hexists.mp h)]

/-- A located path can be handled. -/
theorem canHandleFile_locatedPath (location path : Bytes) :
    canHandleFile (locatedPath location path) = true :=
  canHandleFile_eq_true_iff.mpr
    ⟨location ++ ascii "!" ++ path, by simp [ascii_separators.2], by simp [locatedPath]⟩

/-- It is its own only match. -/
theorem glob_locatedPath (location path : Bytes) :
    glob (locatedPath location path) = [locatedPath location path] := by
  obtain ⟨hexists, hglob⟩ := fileExists_iff (locatedPath location path)
  rw [hglob, if_pos (hexists.mpr (.inl (canHandleFile_locatedPath location path)))]

section Nesting

variable {content : Bytes}

/-- The handle on a window of a file serves the window's bytes as a file of its own. -/
theorem PqcapSubFileHandle.Serves.toFileHandle_holds {h : PqcapSubFileHandle}
    (hs : h.Serves content) : h.toFileHandle.Holds (h.window content) where
  size := by
    have hinside := hs.inside
    have hfits := hs.fits
    change h.getFileSize.toInt = _
    rw [getFileSize, toInt_toInt64 _ (by omega), hs.window_length]
  read nrBytes location hn _ := readAt_eq hs nrBytes hn location

/-- The path of a window of the file at a path. -/
def windowPath (window : UInt64 × UInt64) (path : Bytes) : Bytes :=
  locatedPath (decimal window.1.toNat ++ ascii "_" ++ decimal window.2.toNat) path

/-- The path of windows of windows of the file at a path, the outermost window first. -/
def nestedPath (path : Bytes) : List (UInt64 × UInt64) → Bytes
  | [] => path
  | window :: windows => windowPath window (nestedPath path windows)

/-- The bytes of such a window. -/
def nestedWindow (content : Bytes) : List (UInt64 × UInt64) → Bytes
  | [] => content
  | window :: windows => slice (nestedWindow content windows) window.1.toNat window.2.toNat

/-- Every window ends inside the one that it is a window of. -/
def Nested (content : Bytes) : List (UInt64 × UInt64) → Prop
  | [] => True
  | window :: windows =>
    window.1.toNat + window.2.toNat ≤ (nestedWindow content windows).length ∧
      Nested content windows

/-- The windows of a chain get no longer. -/
theorem nestedWindow_length_le (windows : List (UInt64 × UInt64)) :
    (nestedWindow content windows).length ≤ content.length := by
  induction windows with
  | nil => exact le_refl _
  | cons window windows ih =>
    rw [nestedWindow, slice, List.length_take, List.length_drop]
    omega

variable {fs : VirtualFileSystem} {path : Bytes} {flags : FileOpenFlags}

/-- A window of a file that the host can open is opened by the host as a file of its own. -/
theorem RegistersSubFiles.opens_window (hfs : RegistersSubFiles fs)
    (hreading : flags.openForReading = true) (hwriting : flags.openForWriting = false)
    (hfile : FitsFile content) {inner : FileHandle} (hopen : fs path flags = .ok (some inner))
    (hseek : inner.canSeek = true) (hholds : inner.Holds content) {window : UInt64 × UInt64}
    (hinside : window.1.toNat + window.2.toNat ≤ content.length) :
    ∃ handle, fs (windowPath window path) flags = .ok (some handle) ∧ handle.canSeek = true ∧
      handle.Holds (slice content window.1.toNat window.2.toNat) := by
  have hserves : PqcapSubFileHandle.Serves ⟨inner, window.1, window.2, 0⟩ content :=
    ⟨hholds, hinside, hfile⟩
  have hcan : canHandleFile (windowPath window path) = true := canHandleFile_locatedPath _ _
  have hopened : openFile (windowPath window path) flags (some ⟨some fs⟩) =
      .ok ⟨inner, window.1, window.2, 0⟩ :=
    openFile_printed_eq_ok_iff.mpr ⟨hreading, hwriting, inner, hopen, hseek, rfl⟩
  refine ⟨_, by rw [hfs _ _ hcan, hopened]; rfl, rfl, hserves.toFileHandle_holds⟩

/-- Windows of windows, to any depth, open to a handle on the bytes of the innermost window. -/
theorem RegistersSubFiles.opens_nested (hfs : RegistersSubFiles fs)
    (hreading : flags.openForReading = true) (hwriting : flags.openForWriting = false)
    (hfile : FitsFile content) {inner : FileHandle} (hopen : fs path flags = .ok (some inner))
    (hseek : inner.canSeek = true) (hholds : inner.Holds content)
    {windows : List (UInt64 × UInt64)} (hnested : Nested content windows) :
    ∃ handle, fs (nestedPath path windows) flags = .ok (some handle) ∧ handle.canSeek = true ∧
      handle.Holds (nestedWindow content windows) := by
  induction windows with
  | nil => exact ⟨inner, hopen, hseek, hholds⟩
  | cons window windows ih =>
    obtain ⟨hinside, hrest⟩ := hnested
    obtain ⟨handle, hhandle, hseeks, hserved⟩ := ih hrest
    have hfits : FitsFile (nestedWindow content windows) :=
      lt_of_le_of_lt (nestedWindow_length_le windows) hfile
    exact hfs.opens_window hreading hwriting hfits hhandle hseeks hserved hinside

end Nesting

end PqcapReader
