import PqcapReader.Host
import PqcapReader.Library.Numeral
import PqcapReader.Library.Effects
import Mathlib.Data.List.TakeWhile

/-!
# The sub-file system

`pqcap-subfile://<offset>_<size>!<path>` names a window of the file at `<path>`.
`OpenFile` parses the name and opens the underlying file; the handle then shifts every
read by the window's offset and clips it to the window's size. Positions and sizes are
`idx_t`, so the sums are 64-bit sums.
-/

namespace PqcapReader

open ByteCodec

/-- What `std::stoull` in base ten does with a text. -/
inductive Stoull
  | value (v : UInt64) (consumed : ℕ)
  | outOfRange
  | invalidArgument
  deriving DecidableEq, Repr

/-- `std::stoull` on a text without leading blanks or a sign: it reads the leading digits. -/
def stoull (s : Bytes) : Stoull :=
  let digits := s.takeWhile isDigit
  if digits.isEmpty then
    .invalidArgument
  else if digitsValue digits < 2 ^ 64 then
    .value (UInt64.ofNat (digitsValue digits)) digits.length
  else
    .outOfRange

def parseDecimalUint64 (s field path : Bytes) : Except Exception UInt64 :=
  if s.isEmpty then
    .error (.ioException
      (ascii "malformed pqcap-subfile path (empty " ++ field ++ ascii "): " ++ path))
  else if s.any fun c => !isDigit c then
    .error (.ioException
      (ascii "malformed pqcap-subfile path (non-digit in " ++ field ++ ascii "): " ++ path))
  else
    match stoull s with
    | .value v consumed =>
      if consumed ≠ s.length then
        .error (.ioException (ascii "malformed pqcap-subfile path (trailing chars in " ++
          field ++ ascii "): " ++ path))
      else
        .ok v
    | .outOfRange =>
      .error (.ioException (ascii "malformed pqcap-subfile path (" ++ field ++
        ascii " exceeds uint64): " ++ path))
    | .invalidArgument =>
      .error (.ioException (ascii "malformed pqcap-subfile path (could not parse " ++
        field ++ ascii "): " ++ path))

/-- The text `pqcap-subfile://`, whose length is `PREFIX_LEN`. -/
def subFilePrefix : Bytes := ascii "pqcap-subfile://"

def canHandleFile (fpath : Bytes) : Bool :=
  decide (fpath.length > subFilePrefix.length) &&
    decide (fpath.take subFilePrefix.length = subFilePrefix)

/-- `FileOpener`, with the file system of its client context. -/
structure FileOpener where
  tryGetClientContext : Option VirtualFileSystem

structure PqcapSubFileHandle where
  innerHandle : FileHandle
  baseOffset : UInt64
  subSize : UInt64
  seekPos : UInt64

/-- The part of `OpenFile` that takes a path apart: offset, size, and underlying path. -/
def parseSubFilePath (path : Bytes) : Except Exception (UInt64 × UInt64 × Bytes) :=
  if !canHandleFile path then
    .error (.ioException (ascii "not a pqcap-subfile path: " ++ path))
  else
    let stripped := path.drop subFilePrefix.length
    match stripped.idxOf? 0x21 with
    | none =>
      .error (.ioException
        (ascii "malformed pqcap-subfile path (missing '!' separator): " ++ path))
    | some bang =>
      let header := stripped.take bang
      let underlying := stripped.drop (bang + 1)
      match header.idxOf? 0x5F with
      | none =>
        .error (.ioException
          (ascii "malformed pqcap-subfile path (missing '_' separator): " ++ path))
      | some underscore => do
        let offset ← parseDecimalUint64 (header.take underscore) (ascii "offset") path
        let size ← parseDecimalUint64 (header.drop (underscore + 1)) (ascii "size") path
        pure (offset, size, underlying)

/-- `PqcapSubFileSystem::OpenFile`. -/
def openFile (path : Bytes) (flags : FileOpenFlags) (opener : Option FileOpener) :
    Except Exception PqcapSubFileHandle :=
  if !flags.openForReading || flags.openForWriting then
    .error (.ioException (ascii "pqcap-subfile filesystem is read-only"))
  else
    match opener with
    | none =>
      .error (.ioException
        (ascii "pqcap-subfile filesystem requires a FileOpener for context: " ++ path))
    | some opener => do
      let (offset, size, underlying) ← parseSubFilePath path
      match opener.tryGetClientContext with
      | none =>
        .error (.ioException
          (ascii "pqcap-subfile filesystem requires a ClientContext: " ++ path))
      | some fs =>
        match ← fs underlying flags with
        | none => .error (.ioException (ascii "could not open underlying file: " ++ underlying))
        | some inner =>
          if !inner.canSeek then
            .error (.ioException
              (ascii "underlying file is not seekable, pqcap requires range reads: " ++
                underlying))
          else
            pure ⟨inner, offset, size, 0⟩

namespace PqcapSubFileHandle

/-- `MinValue` on `idx_t`. -/
def minValue (a b : UInt64) : UInt64 := if a < b then a else b

/-- The positional `Read`: what is put into the buffer. -/
def readAt (h : PqcapSubFileHandle) (nrBytes : Int64) (location : UInt64) :
    Except Exception Bytes :=
  if location ≥ h.subSize then
    .ok []
  else
    let toRead := minValue nrBytes.toUInt64 (h.subSize - location)
    if toRead = 0 then
      .ok []
    else
      h.innerHandle.read toRead.toInt64 (location + h.baseOffset)

/-- The sequential `Read`: what is put into the buffer, the returned count, and the handle
with its cursor advanced. -/
def read (h : PqcapSubFileHandle) (nrBytes : Int64) :
    Except Exception (Bytes × Int64 × PqcapSubFileHandle) :=
  if h.seekPos ≥ h.subSize then
    .ok ([], 0, h)
  else
    let toRead := minValue nrBytes.toUInt64 (h.subSize - h.seekPos)
    if toRead = 0 then
      .ok ([], 0, h)
    else do
      let data ← h.innerHandle.read toRead.toInt64 (h.seekPos + h.baseOffset)
      pure (data, toRead.toInt64, { h with seekPos := h.seekPos + toRead })

def getFileSize (h : PqcapSubFileHandle) : Int64 := h.subSize.toInt64

def seek (h : PqcapSubFileHandle) (location : UInt64) : PqcapSubFileHandle :=
  { h with seekPos := location }

def reset (h : PqcapSubFileHandle) : PqcapSubFileHandle := { h with seekPos := 0 }

def seekPosition (h : PqcapSubFileHandle) : UInt64 := h.seekPos

end PqcapSubFileHandle

/-- A text is a non-empty run of digits and denotes the number. -/
structure Denotes (text : Bytes) (n : UInt64) : Prop where
  nonempty : text ≠ []
  digits : ∀ c ∈ text, isDigit c = true
  value : digitsValue text = n.toNat

theorem denotes_decimal (n : UInt64) : Denotes (decimal n.toNat) n :=
  ⟨decimal_ne_nil _, decimal_isDigit _, digitsValue_decimal _⟩

/-- A separator that is not a digit does not occur in a text of digits. -/
theorem Denotes.not_mem {text : Bytes} {n : UInt64} (h : Denotes text n) {c : UInt8}
    (hc : isDigit c = false) : c ∉ text := by
  intro hmem
  rw [h.digits c hmem] at hc
  contradiction

/-- The decimal parser accepts exactly the texts that denote a 64-bit number, leading zeros
included. -/
theorem parseDecimalUint64_eq_ok_iff {text field path : Bytes} {n : UInt64} :
    parseDecimalUint64 text field path = .ok n ↔ Denotes text n := by
  have hdigits : (text.any fun c => !isDigit c) = false ↔ ∀ c ∈ text, isDigit c = true := by
    simp
  have hwhile (h : ∀ c ∈ text, isDigit c = true) : text.takeWhile isDigit = text :=
    List.takeWhile_eq_self_iff.mpr h
  rw [parseDecimalUint64]
  split
  · rename_i hempty
    exact ⟨nofun, fun h => absurd (List.isEmpty_iff.mp hempty) h.nonempty⟩
  · rename_i hempty
    have hnonempty : text.isEmpty = false := Bool.not_eq_true _ ▸ hempty
    split
    · rename_i hany
      refine ⟨nofun, fun h => ?_⟩
      rw [hdigits.mpr h.digits] at hany
      contradiction
    · rename_i hnone
      have hall := hdigits.mp (Bool.not_eq_true _ ▸ hnone)
      rw [stoull, hwhile hall]
      simp only [hnonempty, Bool.false_eq_true, if_false]
      by_cases hfits : digitsValue text < 2 ^ 64
      · have hvalue := uint64_ofNat_toNat hfits
        simp only [if_pos hfits, ne_eq, not_true_eq_false, if_false, Except.ok.injEq]
        constructor
        · rintro rfl
          exact ⟨List.isEmpty_eq_false_iff.mp hnonempty, hall, hvalue.symm⟩
        · intro h
          rw [← UInt64.toNat_inj, hvalue, h.value]
      · simp only [if_neg hfits]
        refine ⟨nofun, fun h => ?_⟩
        rw [h.value] at hfits
        exact absurd n.toNat_lt hfits

/-- A path that names a window: the prefix, two numbers with an underscore between them, an
exclamation mark, and any underlying path. -/
def NamesWindow (path : Bytes) (offset size : UInt64) (underlying : Bytes) : Prop :=
  ∃ offsetText sizeText, Denotes offsetText offset ∧ Denotes sizeText size ∧
    path = subFilePrefix ++ (offsetText ++ ascii "_" ++ sizeText) ++ ascii "!" ++ underlying

/-- A path that the file system can handle is the prefix and something behind it. -/
theorem canHandleFile_eq_true_iff {path : Bytes} :
    canHandleFile path = true ↔ ∃ stripped, stripped ≠ [] ∧ path = subFilePrefix ++ stripped := by
  simp only [canHandleFile, Bool.and_eq_true, decide_eq_true_eq]
  constructor
  · rintro ⟨hlong, hstart⟩
    refine ⟨path.drop subFilePrefix.length, ?_, ?_⟩
    · intro hnil
      have hshort := List.drop_eq_nil_iff.mp hnil
      omega
    · nth_rewrite 1 [← List.take_append_drop subFilePrefix.length path]
      rw [hstart]
  · rintro ⟨stripped, hnonempty, rfl⟩
    have hpositive := List.length_pos_iff.mpr hnonempty
    rw [List.length_append, List.take_left]
    exact ⟨by omega, rfl⟩

theorem ascii_separators : ascii "_" = [0x5F] ∧ ascii "!" = [0x21] := by decide

section Parsing

variable {path underlying : Bytes} {offset size : UInt64}

/-- A path that is parsed is cut at its first exclamation mark, and what stands before that at its
first underscore. -/
theorem NamesWindow.of_parse (h : parseSubFilePath path = .ok (offset, size, underlying)) :
    NamesWindow path offset size underlying := by
  rw [parseSubFilePath] at h
  split at h
  · cases h
  · rename_i hcan
    obtain ⟨stripped, -, rfl⟩ := canHandleFile_eq_true_iff.mp (by simpa using hcan)
    simp only [List.drop_left] at h
    split at h
    · cases h
    · rename_i bang hfound
      obtain ⟨hstripped, -⟩ := split_of_idxOf? hfound
      split at h
      · cases h
      · rename_i underscore hfound'
        obtain ⟨hheader, -⟩ := split_of_idxOf? hfound'
        obtain ⟨offset', hoffset, h⟩ := Effects.except_bind_eq_ok.mp h
        obtain ⟨size', hsize, h⟩ := Effects.except_bind_eq_ok.mp h
        cases h
        refine ⟨_, _, parseDecimalUint64_eq_ok_iff.mp hoffset,
          parseDecimalUint64_eq_ok_iff.mp hsize, ?_⟩
        rw [ascii_separators.1, ascii_separators.2, List.append_assoc _ [0x5F],
          List.singleton_append, ← hheader, List.append_assoc, List.append_assoc,
          List.singleton_append, ← hstripped]

/-- In a path that names a window, the first separators are those behind the two numbers, whatever
the underlying path holds. -/
theorem NamesWindow.parse (h : NamesWindow path offset size underlying) :
    parseSubFilePath path = .ok (offset, size, underlying) := by
  obtain ⟨offsetText, sizeText, hoffset, hsize, rfl⟩ := h
  set header := offsetText ++ ascii "_" ++ sizeText with hheader
  have hsplit : subFilePrefix ++ header ++ ascii "!" ++ underlying =
      subFilePrefix ++ (header ++ 0x21 :: underlying) := by
    rw [ascii_separators.2]
    simp only [List.append_assoc, List.singleton_append]
  have hnobang : (0x21 : UInt8) ∉ header := by
    simp only [hheader, ascii_separators.1, List.mem_append, List.mem_singleton, not_or]
    exact ⟨⟨hoffset.not_mem (by decide), by decide⟩, hsize.not_mem (by decide)⟩
  have hcan : canHandleFile (subFilePrefix ++ (header ++ 0x21 :: underlying)) = true :=
    canHandleFile_eq_true_iff.mpr ⟨_, by simp, rfl⟩
  have hunder : header.idxOf? 0x5F = some offsetText.length := by
    rw [hheader, ascii_separators.1, List.append_assoc, List.singleton_append]
    exact idxOf?_append_cons _ (hoffset.not_mem (by decide))
  have hfirst : header.take offsetText.length = offsetText := by
    rw [hheader, List.append_assoc, List.take_left]
  have hsecond : header.drop (offsetText.length + 1) = sizeText := by
    rw [hheader, List.drop_left']
    simp [ascii_separators.1]
  have hrest : (header ++ 0x21 :: underlying).drop (header.length + 1) = underlying := by
    rw [← List.drop_drop, List.drop_left, List.drop_one, List.tail_cons]
  rw [hsplit, parseSubFilePath, hcan]
  simp only [Bool.not_true, Bool.false_eq_true, if_false, List.drop_left,
    idxOf?_append_cons underlying hnobang, List.take_left, hunder, hfirst, hsecond,
    parseDecimalUint64_eq_ok_iff.mpr hoffset, parseDecimalUint64_eq_ok_iff.mpr hsize, hrest]
  rfl

/-- Path parsing accepts exactly the paths that name a window, and returns what they name. -/
theorem parseSubFilePath_eq_ok_iff :
    parseSubFilePath path = .ok (offset, size, underlying) ↔
      NamesWindow path offset size underlying :=
  ⟨NamesWindow.of_parse, NamesWindow.parse⟩

end Parsing

/-- A printed path names the window that was printed. -/
theorem namesWindow_printed (offset size : UInt64) (underlying : Bytes) :
    NamesWindow (subFilePrefix ++ (decimal offset.toNat ++ ascii "_" ++ decimal size.toNat) ++
      ascii "!" ++ underlying) offset size underlying :=
  ⟨_, _, denotes_decimal offset, denotes_decimal size, rfl⟩

/-- A path names at most one window. -/
theorem NamesWindow.unique {path underlying underlying' : Bytes} {offset size offset' size' : UInt64}
    (h : NamesWindow path offset size underlying) (h' : NamesWindow path offset' size' underlying') :
    offset = offset' ∧ size = size' ∧ underlying = underlying' := by
  have hparse := parseSubFilePath_eq_ok_iff.mpr h
  rw [parseSubFilePath_eq_ok_iff.mpr h', Except.ok.injEq, Prod.mk.injEq, Prod.mk.injEq] at hparse
  exact ⟨hparse.1.symm, hparse.2.1.symm, hparse.2.2.symm⟩

/-- Everything that `OpenFile` can do: it needs to be for reading only, a path that names a window,
and a seekable handle on the underlying file. -/
theorem openFile_eq_ok_iff {path : Bytes} {flags : FileOpenFlags} {opener : Option FileOpener}
    {opened : PqcapSubFileHandle} :
    openFile path flags opener = .ok opened ↔
      flags.openForReading = true ∧ flags.openForWriting = false ∧
        ∃ fs offset size underlying inner, opener = some ⟨some fs⟩ ∧
          NamesWindow path offset size underlying ∧ fs underlying flags = .ok (some inner) ∧
            inner.canSeek = true ∧ opened = ⟨inner, offset, size, 0⟩ := by
  constructor
  · intro h
    unfold openFile at h
    split at h
    · cases h
    · rename_i hallowed
      have hflags : flags.openForReading = true ∧ flags.openForWriting = false := by
        simpa using hallowed
      split at h
      · cases h
      · rename_i found
        obtain ⟨⟨offset, size, underlying⟩, hparse, h⟩ := Effects.except_bind_eq_ok.mp h
        obtain ⟨context⟩ := found
        cases context with
        | none => cases h
        | some fs =>
          obtain ⟨handle, hfs, h⟩ := Effects.except_bind_eq_ok.mp h
          cases handle with
          | none => cases h
          | some inner =>
            cases hseek : inner.canSeek with
            | false =>
              simp only [hseek] at h
              cases h
            | true =>
              simp only [hseek, Bool.not_true, Bool.false_eq_true, if_false] at h
              cases h
              exact ⟨hflags.1, hflags.2, fs, offset, size, underlying, inner, rfl,
                parseSubFilePath_eq_ok_iff.mp hparse, hfs, hseek, rfl⟩
  · rintro ⟨hreading, hwriting, fs, offset, size, underlying, inner, rfl, hnames, hfs, hseek, rfl⟩
    simp only [openFile, hreading, hwriting, Bool.not_true, Bool.or_self, Bool.false_eq_true,
      if_false, parseSubFilePath_eq_ok_iff.mpr hnames, hfs, hseek, bind, Except.bind]
    rfl

/-- Opening a printed path gives a handle on the printed window. -/
theorem openFile_printed_eq_ok_iff {fs : VirtualFileSystem} {path : Bytes} {flags : FileOpenFlags}
    {offset size : UInt64} {opened : PqcapSubFileHandle} :
    openFile (subFilePrefix ++ (decimal offset.toNat ++ ascii "_" ++ decimal size.toNat) ++
        ascii "!" ++ path) flags (some ⟨some fs⟩) = .ok opened ↔
      flags.openForReading = true ∧ flags.openForWriting = false ∧
        ∃ inner, fs path flags = .ok (some inner) ∧ inner.canSeek = true ∧
          opened = ⟨inner, offset, size, 0⟩ := by
  have hprinted := namesWindow_printed offset size path
  rw [openFile_eq_ok_iff]
  refine and_congr_right fun _ => and_congr_right fun _ => ?_
  constructor
  · rintro ⟨fs', offset', size', underlying, inner, hopener, hnames, hfs, hseek, rfl⟩
    obtain ⟨rfl, rfl, rfl⟩ := hnames.unique hprinted
    cases hopener
    exact ⟨inner, hfs, hseek, rfl⟩
  · rintro ⟨inner, hfs, hseek, rfl⟩
    exact ⟨fs, offset, size, path, inner, rfl, hprinted, hfs, hseek, rfl⟩

/-- A printed path parses back to what was printed; path parsing accepts exactly the paths that
name a window; and `OpenFile` opens the named window of the named file, on such paths only. -/
theorem subFilePaths_parse_exactly :
    (∀ (offset size : UInt64) (underlying : Bytes),
      parseSubFilePath (subFilePrefix ++ (decimal offset.toNat ++ ascii "_" ++
        decimal size.toNat) ++ ascii "!" ++ underlying) = .ok (offset, size, underlying)) ∧
      (∀ (path underlying : Bytes) (offset size : UInt64),
        parseSubFilePath path = .ok (offset, size, underlying) ↔
          ∃ offsetText sizeText : Bytes,
            path = subFilePrefix ++ (offsetText ++ ascii "_" ++ sizeText) ++ ascii "!" ++
              underlying ∧
            (offsetText ≠ [] ∧ (∀ c ∈ offsetText, isDigit c = true) ∧
              digitsValue offsetText = offset.toNat) ∧
            sizeText ≠ [] ∧ (∀ c ∈ sizeText, isDigit c = true) ∧
              digitsValue sizeText = size.toNat) ∧
        ∀ (path : Bytes) (flags : FileOpenFlags) (opener : Option FileOpener)
          (opened : PqcapSubFileHandle), openFile path flags opener = .ok opened ↔
            flags.openForReading = true ∧ flags.openForWriting = false ∧
              ∃ fs underlying, opener = some ⟨some fs⟩ ∧
                parseSubFilePath path = .ok (opened.baseOffset, opened.subSize, underlying) ∧
                  fs underlying flags = .ok (some opened.innerHandle) ∧
                    opened.innerHandle.canSeek = true ∧ opened.seekPos = 0 := by
  refine ⟨?_, ?_, ?_⟩
  · intro offset size underlying
    exact parseSubFilePath_eq_ok_iff.mpr (namesWindow_printed offset size underlying)
  · intro path underlying offset size
    rw [parseSubFilePath_eq_ok_iff, NamesWindow]
    constructor
    · rintro ⟨offsetText, sizeText, hoffset, hsize, hpath⟩
      exact ⟨offsetText, sizeText, hpath, ⟨hoffset.nonempty, hoffset.digits, hoffset.value⟩,
        hsize.nonempty, hsize.digits, hsize.value⟩
    · rintro ⟨offsetText, sizeText, hpath, ⟨hsome, hdigits, hvalue⟩, hsome', hdigits', hvalue'⟩
      exact ⟨offsetText, sizeText, ⟨hsome, hdigits, hvalue⟩, ⟨hsome', hdigits', hvalue'⟩, hpath⟩
  · intro path flags opener opened
    rw [openFile_eq_ok_iff]
    refine and_congr_right fun _ => and_congr_right fun _ => ?_
    constructor
    · rintro ⟨fs, offset, size, underlying, inner, hopener, hnames, hfs, hseek, rfl⟩
      exact ⟨fs, underlying, hopener, parseSubFilePath_eq_ok_iff.mpr hnames, hfs, hseek, rfl⟩
    · rintro ⟨fs, underlying, hopener, hparse, hfs, hseek, hstart⟩
      obtain ⟨inner, offset, size, position⟩ := opened
      exact ⟨fs, offset, size, underlying, inner, hopener, parseSubFilePath_eq_ok_iff.mp hparse, hfs,
        hseek, congrArg (PqcapSubFileHandle.mk inner offset size) hstart⟩

namespace PqcapSubFileHandle

/-- The bytes of the underlying file that the handle stands for. -/
def window (h : PqcapSubFileHandle) (content : Bytes) : Bytes :=
  slice content h.baseOffset.toNat h.subSize.toNat

/-- The handle's window lies inside a file that its inner handle serves. -/
structure Serves (h : PqcapSubFileHandle) (content : Bytes) : Prop where
  inner : h.innerHandle.Holds content
  inside : h.baseOffset.toNat + h.subSize.toNat ≤ content.length
  fits : content.length < 2 ^ 63

theorem Serves.window_length {h : PqcapSubFileHandle} {content : Bytes} (hs : h.Serves content) :
    (h.window content).length = h.subSize.toNat :=
  slice_length _ _ _ hs.inside

/-- The handle after a sequential read of `count` bytes. -/
def advance (h : PqcapSubFileHandle) (count : ℕ) : PqcapSubFileHandle :=
  { h with seekPos := h.seekPos + UInt64.ofNat count }

theorem toNat_minValue (a b : UInt64) : (minValue a b).toNat = min a.toNat b.toNat := by
  unfold minValue
  split
  · rename_i hlt
    have := UInt64.lt_iff_toNat_lt.mp hlt
    omega
  · rename_i hge
    have := mt UInt64.lt_iff_toNat_lt.mpr hge
    omega

/-- What a read of `nrBytes` from a position of the window asks of the inner file: a size and a
location, or nothing. -/
def innerRequest (h : PqcapSubFileHandle) (nrBytes : Int64) (position : UInt64) :
    Option (UInt64 × UInt64) :=
  if position ≥ h.subSize then
    none
  else
    let toRead := minValue nrBytes.toUInt64 (h.subSize - position)
    if toRead = 0 then none else some (toRead, position + h.baseOffset)

/-- The positional read makes its request and nothing else. -/
theorem readAt_eq_innerRequest (h : PqcapSubFileHandle) (nrBytes : Int64) (location : UInt64) :
    h.readAt nrBytes location =
      match h.innerRequest nrBytes location with
      | none => .ok []
      | some (toRead, position) => h.innerHandle.read toRead.toInt64 position := by
  unfold readAt innerRequest
  split
  · rfl
  · dsimp only
    split
    · rfl
    · rfl

/-- The sequential read makes its request and moves the cursor by its size. -/
theorem read_eq_innerRequest (h : PqcapSubFileHandle) (nrBytes : Int64) :
    h.read nrBytes =
      match h.innerRequest nrBytes h.seekPos with
      | none => .ok ([], 0, h)
      | some (toRead, position) => (do
        let data ← h.innerHandle.read toRead.toInt64 position
        return (data, toRead.toInt64, { h with seekPos := h.seekPos + toRead })) := by
  unfold read innerRequest
  split
  · rfl
  · dsimp only
    split
    · rfl
    · rfl

/-- A positive request from a position before the window's end asks for as many bytes as are wanted
or remain; any other request asks for nothing. -/
theorem innerRequest_eq (h : PqcapSubFileHandle) {nrBytes : Int64} (hn : 0 ≤ nrBytes.toInt)
    (position : UInt64) :
    h.innerRequest nrBytes position =
      if position.toNat < h.subSize.toNat ∧ 0 < nrBytes.toInt then
        some (UInt64.ofNat (min nrBytes.toInt.toNat (h.subSize.toNat - position.toNat)),
          position + h.baseOffset)
      else
        none := by
  have hrequest := toNat_toUInt64 nrBytes hn
  have hzero (count : UInt64) : count = 0 ↔ count.toNat = 0 := UInt64.toNat_inj.symm
  unfold innerRequest
  by_cases hend : position ≥ h.subSize
  · have hpast : h.subSize.toNat ≤ position.toNat := UInt64.le_iff_toNat_le.mp hend
    rw [if_pos hend, if_neg (by omega)]
  · have hpos : position.toNat < h.subSize.toNat := by
      have := mt UInt64.le_iff_toNat_le.mpr hend
      omega
    have htoRead : (minValue nrBytes.toUInt64 (h.subSize - position)).toNat =
        min nrBytes.toInt.toNat (h.subSize.toNat - position.toNat) := by
      rw [toNat_minValue, UInt64.toNat_sub_of_le _ _ (UInt64.le_iff_toNat_le.mpr hpos.le)]
      omega
    simp only [if_neg hend, hzero, htoRead]
    by_cases hpositive : 0 < nrBytes.toInt
    · rw [if_neg (by omega), if_pos ⟨hpos, hpositive⟩, ← htoRead, UInt64.ofNat_toNat]
    · rw [if_pos (by omega), if_neg fun hboth => hpositive hboth.2]

/-- A read from any position of the window asks for the window's bytes from there, as many as are
wanted or remain, and for nothing outside the file. -/
theorem Serves.innerRequest_eq {h : PqcapSubFileHandle} {content : Bytes} (hs : h.Serves content)
    (nrBytes : Int64) (hn : 0 ≤ nrBytes.toInt) (position : UInt64) {data : Bytes}
    (hdata : data = slice (h.window content) position.toNat nrBytes.toInt.toNat) :
    h.innerRequest nrBytes position = none ∧ data = [] ∨
      ∃ location, h.innerRequest nrBytes position = some (UInt64.ofNat data.length, location) ∧
        location.toNat + (UInt64.ofNat data.length).toNat ≤ content.length ∧
          h.innerHandle.read (UInt64.ofNat data.length).toInt64 location = .ok data := by
  have hwindow := hs.window_length
  have hinside := hs.inside
  have hfits := hs.fits
  have hlength : data.length = min nrBytes.toInt.toNat (h.subSize.toNat - position.toNat) := by
    rw [hdata, slice, List.length_take, List.length_drop, hwindow]
  rw [PqcapSubFileHandle.innerRequest_eq h hn, ← hlength]
  split
  · rename_i hsome
    have hcount : (UInt64.ofNat data.length).toNat = data.length :=
      uint64_ofNat_toNat (by omega)
    have hlocation : (position + h.baseOffset).toNat = h.baseOffset.toNat + position.toNat := by
      rw [UInt64.toNat_add, Nat.mod_eq_of_lt (by omega), Nat.add_comm]
    have hsigned : (UInt64.ofNat data.length).toInt64.toInt = (data.length : ℕ) := by
      rw [toInt_toInt64 _ (by omega), hcount]
    have hinner := hs.inner.read (UInt64.ofNat data.length).toInt64 (position + h.baseOffset)
      (by omega) (by omega)
    have hslice : slice content (position + h.baseOffset).toNat
        (UInt64.ofNat data.length).toInt64.toInt.toNat = data := by
      rw [hsigned, hlocation, Int.toNat_natCast, hlength, ← slice_slice, hdata]
      rfl
    rw [hslice] at hinner
    exact .inr ⟨_, rfl, by omega, hinner⟩
  · exact .inl ⟨rfl, List.eq_nil_of_length_eq_zero (by omega)⟩

/-- A sequential read delivers the window's bytes from the cursor, as many as were asked for
or remain, and moves the cursor past them. -/
theorem read_eq {h : PqcapSubFileHandle} {content : Bytes} (hs : h.Serves content)
    (nrBytes : Int64) (hn : 0 ≤ nrBytes.toInt) :
    h.read nrBytes =
      let data := slice (h.window content) h.seekPos.toNat nrBytes.toInt.toNat
      .ok (data, Int64.ofNat data.length, h.advance data.length) := by
  dsimp only
  rw [read_eq_innerRequest]
  rcases hs.innerRequest_eq nrBytes hn h.seekPos rfl with ⟨hnone, hnil⟩ | ⟨location, hsome, -, hread⟩
  · rw [hnone, hnil]
    simp [advance]
  · simp only [hsome, hread]
    rfl

/-- A positional read delivers the window's bytes from the location. -/
theorem readAt_eq {h : PqcapSubFileHandle} {content : Bytes} (hs : h.Serves content)
    (nrBytes : Int64) (hn : 0 ≤ nrBytes.toInt) (location : UInt64) :
    h.readAt nrBytes location =
      .ok (slice (h.window content) location.toNat nrBytes.toInt.toNat) := by
  rw [readAt_eq_innerRequest]
  rcases hs.innerRequest_eq nrBytes hn location rfl with ⟨hnone, hnil⟩ | ⟨position, hsome, -, hread⟩
  · rw [hnone, hnil]
  · simp only [hsome, hread]

/-- Sequential reads with the given request sizes: data and count of each, and the handle after. -/
def readTimes (h : PqcapSubFileHandle) (requests : ℕ → Int64) :
    ℕ → Except Exception (List (Bytes × Int64) × PqcapSubFileHandle)
  | 0 => .ok ([], h)
  | count + 1 => do
    let (data, returned, next) ← h.read (requests 0)
    let (results, last) ← next.readTimes (fun i => requests (i + 1)) count
    pure ((data, returned) :: results, last)

/-- Advancing keeps what the handle serves. -/
theorem Serves.advance {h : PqcapSubFileHandle} {content : Bytes} (hs : h.Serves content)
    (count : ℕ) : (h.advance count).Serves content :=
  ⟨hs.inner, hs.inside, hs.fits⟩

/-- At the end of the window a sequential read returns zero and moves nothing. -/
theorem read_at_end {h : PqcapSubFileHandle} (hend : h.seekPos = h.subSize) (nrBytes : Int64) :
    h.read nrBytes = .ok ([], 0, h) := by
  rw [read, if_pos (hend ▸ UInt64.le_refl _)]

/-- Before the end of the window a positive request delivers the next bytes and moves behind them. -/
theorem Serves.read_progress {h : PqcapSubFileHandle} {content : Bytes} (hs : h.Serves content)
    (hlt : h.seekPos.toNat < h.subSize.toNat) {nrBytes : Int64} (hn : 0 < nrBytes.toInt) :
    ∃ data next, h.read nrBytes = .ok (data, Int64.ofNat data.length, next) ∧
      0 < (Int64.ofNat data.length).toInt ∧ next.Serves content ∧ next.subSize = h.subSize ∧
        next.window content = h.window content ∧
          next.seekPos.toNat = h.seekPos.toNat + data.length ∧ 0 < data.length ∧
            next.seekPos.toNat ≤ h.subSize.toNat ∧
              data ++ (h.window content).drop next.seekPos.toNat =
                (h.window content).drop h.seekPos.toNat := by
  have hwindow := hs.window_length
  have hfits := hs.fits
  have hinside := hs.inside
  set data := slice (h.window content) h.seekPos.toNat nrBytes.toInt.toNat with hdata
  have hlength : data.length = min nrBytes.toInt.toNat (h.subSize.toNat - h.seekPos.toNat) := by
    rw [hdata, slice, List.length_take, List.length_drop, hwindow]
  have hcursor : (h.advance data.length).seekPos.toNat = h.seekPos.toNat + data.length := by
    rw [PqcapSubFileHandle.advance, UInt64.toNat_add, uint64_ofNat_toNat (by omega),
      Nat.mod_eq_of_lt (by omega)]
  have hcount : (Int64.ofNat data.length).toInt = (data.length : ℤ) := by
    change (UInt64.ofNat data.length).toInt64.toInt = _
    have hword := uint64_ofNat_toNat (n := data.length) (by omega)
    rw [toInt_toInt64 _ (by omega), hword]
  refine ⟨data, h.advance data.length, read_eq hs nrBytes hn.le, by omega, hs.advance data.length,
    rfl, rfl, hcursor, by omega, by omega, ?_⟩
  have htake : data = ((h.window content).drop h.seekPos.toNat).take data.length := by
    rw [hdata, slice, List.length_take, ← List.take_take, List.take_length]
  rw [hcursor, ← List.drop_drop]
  calc data ++ ((h.window content).drop h.seekPos.toNat).drop data.length
      = ((h.window content).drop h.seekPos.toNat).take data.length ++
          ((h.window content).drop h.seekPos.toNat).drop data.length := by rw [← htake]
    _ = (h.window content).drop h.seekPos.toNat := List.take_append_drop _ _

/-- Positive requests, repeated until a read returns zero, deliver the rest of the window. -/
theorem exists_readTimes {h : PqcapSubFileHandle} {content : Bytes} (hs : h.Serves content)
    (hpos : h.seekPos.toNat ≤ h.subSize.toNat) (requests : ℕ → Int64)
    (hrequests : ∀ i, 0 < (requests i).toInt) :
    ∃ count results last, h.readTimes requests count = .ok (results, last) ∧
      (∀ result ∈ results, 0 < result.2.toInt) ∧
        (results.map Prod.fst).flatten = (h.window content).drop h.seekPos.toNat ∧
          last.read (requests count) = .ok ([], 0, last) := by
  induction hremaining : h.subSize.toNat - h.seekPos.toNat using Nat.strongRecOn
    generalizing h requests with
  | ind remaining ih =>
    by_cases hend : h.seekPos = h.subSize
    · refine ⟨0, [], h, rfl, by simp, ?_, read_at_end hend _⟩
      rw [hend, ← hs.window_length, List.drop_length]
      rfl
    · have hlt : h.seekPos.toNat < h.subSize.toNat := by
        have := mt UInt64.toNat_inj.mp hend
        omega
      obtain ⟨data, next, hread, hpositive, hserves, hsize, hwindow, hcursor, hmoved, hinside, hdata⟩ :=
        hs.read_progress hlt (hrequests 0)
      obtain ⟨count, results, last, hrun, hcounts, hflat, hlast⟩ :=
        ih (next.subSize.toNat - next.seekPos.toNat) (by rw [hsize]; omega) hserves
          (hsize ▸ hinside) (fun i => requests (i + 1)) (fun i => hrequests (i + 1)) rfl
      refine ⟨count + 1, (data, Int64.ofNat data.length) :: results, last, ?_, ?_, ?_, hlast⟩
      · rw [readTimes, hread]
        simp only [bind, Except.bind, hrun]
        rfl
      · exact List.forall_mem_cons.mpr ⟨hpositive, hcounts⟩
      · rw [List.map_cons, List.flatten_cons, hflat, hwindow, hdata]

end PqcapSubFileHandle

end PqcapReader
