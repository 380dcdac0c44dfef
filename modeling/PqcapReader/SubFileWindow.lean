import PqcapReader.SubFileRefinement

/-!
# A sub-file that a user names

A path may name any offset and any size, and nothing compares them with each other or with
the file below. Runs here go on after an operation that throws. What a handle asks of the
file below stays inside the named window exactly when the window ends by `2 ^ 64`, and the
reported size is the named one below `2 ^ 63`. A positional read that is cut at the
window's end returns like a complete one.
-/

namespace PqcapReader

open ByteCodec

namespace PqcapSubFileHandle

/-- The handle after a request; an operation that throws leaves it as it was. -/
def after (h : PqcapSubFileHandle) (request : FileRequest) : PqcapSubFileHandle :=
  match h.operate request with
  | .ok (_, next) => next
  | .error _ => h

/-- The handle after a run of requests. -/
def afterAll (h : PqcapSubFileHandle) (requests : List FileRequest) : PqcapSubFileHandle :=
  requests.foldl after h

/-- The reads of the inner handle in a run of requests: size and location of each. -/
def innerReads : PqcapSubFileHandle → List FileRequest → List (UInt64 × UInt64)
  | _, [] => []
  | h, request :: requests => (h.innerRead request).toList ++ (h.after request).innerReads requests

/-- A request moves nothing but the cursor. -/
theorem exists_after (h : PqcapSubFileHandle) (request : FileRequest) :
    ∃ position, h.after request = { h with seekPos := position } := by
  cases request with
  | read nrBytes =>
    rw [after, operate, read_eq_innerRequest]
    cases h.innerRequest nrBytes h.seekPos with
    | none => exact ⟨h.seekPos, rfl⟩
    | some asked =>
      obtain ⟨count, location⟩ := asked
      cases hread : h.innerHandle.read count.toInt64 location with
      | ok data => exact ⟨h.seekPos + count, by simp [hread, bind, Except.bind, pure, Except.pure]⟩
      | error error => exact ⟨h.seekPos, by simp [hread, bind, Except.bind]⟩
  | readAt nrBytes location =>
    rw [after, operate]
    cases hread : h.readAt nrBytes location with
    | ok data => exact ⟨h.seekPos, rfl⟩
    | error error => exact ⟨h.seekPos, rfl⟩
  | seek location => exact ⟨location, rfl⟩
  | reset => exact ⟨0, rfl⟩
  | seekPosition => exact ⟨h.seekPos, rfl⟩
  | getFileSize => exact ⟨h.seekPos, rfl⟩

/-- A run of requests moves nothing but the cursor. -/
theorem exists_afterAll (h : PqcapSubFileHandle) (requests : List FileRequest) :
    ∃ position, h.afterAll requests = { h with seekPos := position } := by
  induction requests generalizing h with
  | nil => exact ⟨h.seekPos, rfl⟩
  | cons request requests ih =>
    obtain ⟨position, hafter⟩ := h.exists_after request
    obtain ⟨last, hlast⟩ := ih (h.after request)
    refine ⟨last, ?_⟩
    rw [afterAll, List.foldl_cons, ← afterAll, hlast, hafter]

end PqcapSubFileHandle

open PqcapSubFileHandle

/-- A read of the inner handle lies in a window, and its size keeps its value as an `int64_t`. -/
def InWindow (offset size : ℕ) (asked : UInt64 × UInt64) : Prop :=
  asked.1.toInt64.toInt = asked.1.toNat ∧ offset ≤ asked.2.toNat ∧
    asked.2.toNat + asked.1.toNat ≤ offset + size

/-- A handle is confined to a window: after every run it reports the window's size, and in every
run all reads of the inner handle lie in the window. -/
structure Confined (h : PqcapSubFileHandle) (offset size : ℕ) : Prop where
  fileSize : ∀ requests, (h.afterAll requests).getFileSize.toInt = size
  reads : ∀ requests : List FileRequest, (∀ request ∈ requests, request.Sized) →
    ∀ asked ∈ h.innerReads requests, InWindow offset size asked

namespace PqcapSubFileHandle

variable {h : PqcapSubFileHandle}

/-- In a window that ends by `2 ^ 64` no location wraps. -/
theorem innerRequest_inWindow (hend : h.baseOffset.toNat + h.subSize.toNat ≤ 2 ^ 64)
    {nrBytes : Int64} (hn : 0 ≤ nrBytes.toInt) (position : UInt64) :
    ∀ asked ∈ h.innerRequest nrBytes position,
      InWindow h.baseOffset.toNat h.subSize.toNat asked := by
  have hbound := nrBytes.toInt_lt
  intro asked hasked
  rw [innerRequest_eq h hn] at hasked
  split at hasked
  · rename_i hsome
    cases hasked
    have hcount := uint64_ofNat_toNat
      (n := min nrBytes.toInt.toNat (h.subSize.toNat - position.toNat)) (by omega)
    have hlocation : (position + h.baseOffset).toNat = position.toNat + h.baseOffset.toNat := by
      rw [UInt64.toNat_add, Nat.mod_eq_of_lt (by omega)]
    refine ⟨toInt_toInt64 _ (by rw [hcount]; omega), ?_, ?_⟩
    · rw [hlocation]
      omega
    · rw [hlocation, hcount]
      omega
  · cases hasked

/-- Nor does one in the reads of a whole run. -/
theorem innerReads_inWindow (hend : h.baseOffset.toNat + h.subSize.toNat ≤ 2 ^ 64)
    {requests : List FileRequest} (hsized : ∀ request ∈ requests, request.Sized) :
    ∀ asked ∈ h.innerReads requests, InWindow h.baseOffset.toNat h.subSize.toNat asked := by
  induction requests generalizing h with
  | nil => exact fun asked hasked => absurd hasked List.not_mem_nil
  | cons request requests ih =>
    rw [List.forall_mem_cons] at hsized
    intro asked hasked
    rw [innerReads, List.mem_append, Option.mem_toList] at hasked
    rcases hasked with hfirst | hrest
    · cases request with
      | read nrBytes => exact innerRequest_inWindow hend hsized.1 _ asked hfirst
      | readAt nrBytes location => exact innerRequest_inWindow hend hsized.1 _ asked hfirst
      | seek location => cases hfirst
      | reset => cases hfirst
      | seekPosition => cases hfirst
      | getFileSize => cases hfirst
    · obtain ⟨position, hafter⟩ := h.exists_after request
      rw [hafter] at hrest
      exact ih (h := { h with seekPos := position }) hend hsized.2 asked hrest

/-- Behind the wrap, a read of one byte at the window's end is made before the window. -/
theorem innerRead_wraps (hend : 2 ^ 64 < h.baseOffset.toNat + h.subSize.toNat) :
    ∃ asked ∈ h.innerReads [.readAt 1 (h.subSize - 1)],
      ¬ InWindow h.baseOffset.toNat h.subSize.toNat asked := by
  have hoffset := h.baseOffset.toNat_lt
  have hsize := h.subSize.toNat_lt
  have hone : (1 : Int64).toInt = 1 := by decide
  have hlast : (h.subSize - 1).toNat = h.subSize.toNat - 1 :=
    UInt64.toNat_sub_of_le _ _ (UInt64.le_iff_toNat_le.mpr (show 1 ≤ h.subSize.toNat by omega))
  have hlocation : ((h.subSize - 1) + h.baseOffset).toNat =
      h.subSize.toNat - 1 + h.baseOffset.toNat - 2 ^ 64 := by
    rw [UInt64.toNat_add, hlast]
    omega
  have hasked : h.innerRead (.readAt 1 (h.subSize - 1)) =
      some (UInt64.ofNat (min 1 (h.subSize.toNat - (h.subSize - 1).toNat)),
        (h.subSize - 1) + h.baseOffset) := by
    rw [innerRead, innerRequest_eq h (by decide), if_pos ⟨by omega, by decide⟩, hone]
    rfl
  have hmem : (UInt64.ofNat (min 1 (h.subSize.toNat - (h.subSize - 1).toNat)),
      (h.subSize - 1) + h.baseOffset) ∈ h.innerReads [.readAt 1 (h.subSize - 1)] := by
    rw [innerReads, hasked]
    exact List.mem_append_left _ (List.mem_singleton_self _)
  refine ⟨_, hmem, ?_⟩
  rintro ⟨-, hfront, -⟩
  rw [hlocation] at hfront
  omega

end PqcapSubFileHandle

/-- A handle that `OpenFile` returns is confined to the window that the path names exactly when the
named size is below `2 ^ 63` and the window ends by `2 ^ 64`. -/
theorem openFile_confined_iff {path : Bytes} {flags : FileOpenFlags} {opener : Option FileOpener}
    {opened : PqcapSubFileHandle} (hopened : openFile path flags opener = .ok opened) :
    ∃ offset size underlying, NamesWindow path offset size underlying ∧
      (Confined opened offset.toNat size.toNat ↔
        size.toNat < 2 ^ 63 ∧ offset.toNat + size.toNat ≤ 2 ^ 64) := by
  obtain ⟨-, -, fs, offset, size, underlying, inner, -, hnames, -, -, rfl⟩ :=
    openFile_eq_ok_iff.mp hopened
  refine ⟨offset, size, underlying, hnames, ?_⟩
  constructor
  · rintro ⟨hsize, hreads⟩
    constructor
    · have hreported : size.toInt64.toInt = size.toNat := hsize []
      have hbound := size.toInt64.toInt_lt
      omega
    · by_contra hwraps
      obtain ⟨asked, hasked, houtside⟩ :=
        innerRead_wraps (h := ⟨inner, offset, size, 0⟩) (not_le.mp hwraps)
      refine houtside (hreads _ ?_ asked hasked)
      simp only [List.mem_singleton, forall_eq, FileRequest.Sized]
      decide
  · rintro ⟨hsize, hend⟩
    refine ⟨fun requests => ?_, fun requests hsized => ?_⟩
    · obtain ⟨position, hafter⟩ := exists_afterAll ⟨inner, offset, size, 0⟩ requests
      rw [hafter]
      exact toInt_toInt64 size hsize
    · exact innerReads_inWindow (h := ⟨inner, offset, size, 0⟩) hend hsized

/-- For reading only, with a file system that serves the small bundle under every path. -/
def sampleOpener : Option FileOpener := some ⟨some sampleFileSystem⟩

/-- A path whose window ends before `2 ^ 64`, though behind the end of the file below. -/
theorem openFile_confined_sample :
    ∃ offset size underlying,
      NamesWindow (ascii "pqcap-subfile://18446744073709551600_015!a!b") offset size underlying ∧
        (Confined ⟨FileHandle.ofContent sampleBundle, 18446744073709551600, 15, 0⟩ offset.toNat
            size.toNat ↔
          size.toNat < 2 ^ 63 ∧ offset.toNat + size.toNat ≤ 2 ^ 64) := by
  have hopened : openFile (ascii "pqcap-subfile://18446744073709551600_015!a!b") fileFlagsRead
      sampleOpener = .ok ⟨FileHandle.ofContent sampleBundle, 18446744073709551600, 15, 0⟩ :=
    openFile_eq_ok_iff.mpr ⟨rfl, rfl, sampleFileSystem, _, _, ascii "a!b", _, rfl,
      ⟨ascii "18446744073709551600", ascii "015", ⟨by decide, by decide +kernel, by decide⟩,
        ⟨by decide, by decide +kernel, by decide⟩, by decide⟩, rfl, rfl, rfl⟩
  exact openFile_confined_iff hopened

/-- The path of a window of two bytes, the second of which has no location. -/
theorem wrapping_path_not_confined :
    ¬ ∀ (path : Bytes) (flags : FileOpenFlags) (opener : Option FileOpener)
        (opened : PqcapSubFileHandle), openFile path flags opener = .ok opened →
          ∃ offset size underlying, NamesWindow path offset size underlying ∧
            Confined opened offset.toNat size.toNat := by
  intro h
  have hopened : openFile (ascii "pqcap-subfile://18446744073709551615_2!a") fileFlagsRead
      sampleOpener = .ok ⟨FileHandle.ofContent sampleBundle, 18446744073709551615, 2, 0⟩ :=
    openFile_eq_ok_iff.mpr ⟨rfl, rfl, sampleFileSystem, _, _, ascii "a", _, rfl,
      ⟨ascii "18446744073709551615", ascii "2", ⟨by decide, by decide +kernel, by decide⟩,
        ⟨by decide, by decide +kernel, by decide⟩, by decide⟩, rfl, rfl, rfl⟩
  obtain ⟨offset, size, underlying, hnames, -, hreads⟩ := h _ _ _ _ hopened
  have hnamed : parseSubFilePath (ascii "pqcap-subfile://18446744073709551615_2!a") =
      .ok (18446744073709551615, 2, ascii "a") := by
    decide +kernel
  obtain ⟨rfl, rfl, -⟩ := hnames.unique (parseSubFilePath_eq_ok_iff.mp hnamed)
  have hwraps := hreads [.readAt 1 1] (by decide) (1, 0) (by decide)
  exact absurd hwraps.2.1 (by decide)

section Positional

/-- A positional read of a handle on a window of the content is complete or fails: when it returns,
it has put all requested bytes of the window into the buffer, the same that a sequential read
delivers and counts from there; and behind the window's end it fails. -/
structure CompleteOrFails (h : PqcapSubFileHandle) (content : Bytes) (nrBytes : Int64)
    (location : UInt64) : Prop where
  complete : ∀ data, h.readAt nrBytes location = .ok data →
    data.length = nrBytes.toInt.toNat ∧
      data = slice (h.window content) location.toNat nrBytes.toInt.toNat ∧
        ∃ next, (h.seek location).read nrBytes = .ok (data, nrBytes, next)
  fails : 0 < nrBytes.toInt → h.subSize.toNat < location.toNat + nrBytes.toInt.toNat →
    ∃ error, h.readAt nrBytes location = .error error

variable {h : PqcapSubFileHandle} {content : Bytes} {nrBytes : Int64} {location : UInt64}

/-- The request lies in the window, and the location in the file below does not wrap. -/
def InsideWindow (h : PqcapSubFileHandle) (nrBytes : Int64) (location : UInt64) : Prop :=
  location.toNat + nrBytes.toInt.toNat ≤ h.subSize.toNat ∧
    h.baseOffset.toNat + location.toNat < 2 ^ 64

/-- The file below ends before the part of the request that is left after the cut at the window's
end, so that reading it fails. -/
def FailsBelow (h : PqcapSubFileHandle) (content : Bytes) (nrBytes : Int64) (location : UInt64) :
    Prop :=
  location.toNat < h.subSize.toNat ∧
    content.length < (h.baseOffset.toNat + location.toNat) % 2 ^ 64 +
      min nrBytes.toInt.toNat (h.subSize.toNat - location.toNat)

/-- A sequential read behind a seek makes the request of the positional read. -/
theorem seek_read_eq_innerRequest (h : PqcapSubFileHandle) (nrBytes : Int64) (location : UInt64) :
    (h.seek location).read nrBytes =
      match h.innerRequest nrBytes location with
      | none => .ok ([], 0, h.seek location)
      | some (toRead, position) => (do
        let data ← h.innerHandle.read toRead.toInt64 position
        return (data, toRead.toInt64, { h with seekPos := location + toRead })) :=
  read_eq_innerRequest (h.seek location) nrBytes

/-- A signed word is determined by its number. -/
theorem int64_eq_of_toInt {n : ℕ} (h : nrBytes.toInt = n) (hn : n < 2 ^ 63) :
    (UInt64.ofNat n).toInt64 = nrBytes := by
  have hword : (UInt64.ofNat n).toNat = n := uint64_ofNat_toNat (by omega)
  apply Int64.toInt_inj.mp
  rw [toInt_toInt64 _ (by omega), hword, h]

variable (hn : 0 ≤ nrBytes.toInt)

include hn

/-- A request that asks the file below for nothing always returns; it is complete when it is
empty. -/
theorem completeOrFails_of_nothing
    (hnothing : ¬ (location.toNat < h.subSize.toNat ∧ 0 < nrBytes.toInt)) :
    CompleteOrFails h content nrBytes location ↔ nrBytes.toInt = 0 := by
  have hnone : h.innerRequest nrBytes location = none := by
    rw [innerRequest_eq h hn, if_neg hnothing]
  have hread : h.readAt nrBytes location = .ok [] := by
    rw [readAt_eq_innerRequest, hnone]
  have hseek : (h.seek location).read nrBytes = .ok ([], 0, h.seek location) := by
    rw [seek_read_eq_innerRequest, hnone]
  constructor
  · intro hcomplete
    by_contra hsome
    obtain ⟨error, herror⟩ := hcomplete.fails (by omega) (by omega)
    rw [hread] at herror
    cases herror
  · intro hempty
    have hzero : nrBytes = 0 := Int64.toInt_inj.mp hempty
    refine ⟨fun data hdata => ?_, fun hsome => absurd hsome (by omega)⟩
    rw [hread] at hdata
    cases hdata
    rw [hempty]
    refine ⟨rfl, ?_, h.seek location, ?_⟩
    · exact (List.take_zero).symm
    · rw [hseek, hzero]

/-- A request that asks the file below for something fails when that file is too short, and
otherwise gives the bytes up to the cut, as the sequential read does. -/
theorem readAt_of_request (hexact : h.innerHandle.Exact content)
    (hsome : location.toNat < h.subSize.toNat ∧ 0 < nrBytes.toInt) {count : ℕ}
    (hcount : count = min nrBytes.toInt.toNat (h.subSize.toNat - location.toNat)) :
    (FailsBelow h content nrBytes location ∧ ∃ error, h.readAt nrBytes location = .error error) ∨
      ∃ data, ¬ FailsBelow h content nrBytes location ∧ h.readAt nrBytes location = .ok data ∧
        data = slice content ((h.baseOffset.toNat + location.toNat) % 2 ^ 64) count ∧
          data.length = count ∧ (h.seek location).read nrBytes =
            .ok (data, (UInt64.ofNat count).toInt64,
              { h with seekPos := location + UInt64.ofNat count }) := by
  have hbound := nrBytes.toInt_lt
  have hfits := hexact.toHolds.toNat_size.2
  have hlocation : (location + h.baseOffset).toNat =
      (h.baseOffset.toNat + location.toNat) % 2 ^ 64 := by
    rw [UInt64.toNat_add, Nat.add_comm]
  have hasked : h.innerRequest nrBytes location =
      some (UInt64.ofNat count, location + h.baseOffset) := by
    rw [innerRequest_eq h hn, if_pos hsome, hcount]
  have hsigned : (UInt64.ofNat count).toInt64.toInt = (count : ℕ) := by
    have hword : (UInt64.ofNat count).toNat = count := uint64_ofNat_toNat (by omega)
    rw [toInt_toInt64 _ (by omega), hword]
  rw [readAt_eq_innerRequest, seek_read_eq_innerRequest, hasked, ← hlocation]
  by_cases hbelow : FailsBelow h content nrBytes location
  · refine .inl ⟨hbelow, hexact.outside _ _ (by omega) ?_⟩
    rw [hlocation, hsigned, hcount]
    exact hbelow.2
  · have hinside : (location + h.baseOffset).toNat + count ≤ content.length := by
      rw [hlocation, hcount]
      by_contra hlong
      exact hbelow ⟨hsome.1, not_le.mp hlong⟩
    have hinner := hexact.read (UInt64.ofNat count).toInt64 (location + h.baseOffset) (by omega)
      (by rw [hsigned]; exact hinside)
    rw [hsigned, Int.toNat_natCast] at hinner
    refine .inr ⟨_, hbelow, hinner, rfl, slice_length content _ count hinside, ?_⟩
    simp only [hinner]
    rfl

/-- A request that asks the file below for something is complete when it lies in the window, and
fails when the file below is too short. -/
theorem completeOrFails_of_request (hexact : h.innerHandle.Exact content)
    (hsome : location.toNat < h.subSize.toNat ∧ 0 < nrBytes.toInt) :
    CompleteOrFails h content nrBytes location ↔
      InsideWindow h nrBytes location ∨ FailsBelow h content nrBytes location := by
  have hbound := nrBytes.toInt_lt
  obtain ⟨count, hcount⟩ :
      ∃ count, count = min nrBytes.toInt.toNat (h.subSize.toNat - location.toNat) := ⟨_, rfl⟩
  have hwindow : slice (h.window content) location.toNat nrBytes.toInt.toNat =
      slice content (h.baseOffset.toNat + location.toNat) count := by
    rw [hcount]
    exact slice_slice _ _ _ _ _
  rcases readAt_of_request hn hexact hsome hcount with
    ⟨hbelow, error, hread⟩ | ⟨data, hbelow, hread, hdata, hlength, hseek⟩
  · refine iff_of_true ⟨fun data hdata => ?_, fun _ _ => ⟨error, hread⟩⟩ (.inr hbelow)
    rw [hread] at hdata
    cases hdata
  · rw [or_iff_left hbelow]
    constructor
    · intro hcomplete
      obtain ⟨hwhole, hshown, -⟩ := hcomplete.complete data hread
      refine ⟨by omega, ?_⟩
      -- Behind the wrap there is no byte that the window could hold.
      by_contra hwraps
      have hfits := hexact.toHolds.toNat_size.2
      have hnone := congrArg List.length hshown
      rw [hwindow, hlength, slice, List.length_take, List.length_drop] at hnone
      omega
    · rintro ⟨hend, hwraps⟩
      have hwhole : count = nrBytes.toInt.toNat := by omega
      have hword : (UInt64.ofNat count).toInt64 = nrBytes := int64_eq_of_toInt (by omega) (by omega)
      rw [Nat.mod_eq_of_lt hwraps] at hdata
      rw [hword] at hseek
      refine ⟨fun data' hdata' => ?_, fun _ hpast => absurd hpast (by omega)⟩
      rw [hread] at hdata'
      cases hdata'
      exact ⟨hlength.trans hwhole, hdata.trans hwindow.symm, _, hseek⟩

end Positional

/-- After every run of a handle, a positional read is complete or fails exactly when it is empty,
or lies in the window, or fails in the file below. -/
theorem readAt_completeOrFails_iff {h : PqcapSubFileHandle} {content : Bytes}
    (hexact : h.innerHandle.Exact content) (requests : List FileRequest) {nrBytes : Int64}
    (hn : 0 ≤ nrBytes.toInt) (location : UInt64) :
    CompleteOrFails (h.afterAll requests) content nrBytes location ↔
      nrBytes.toInt = 0 ∨ InsideWindow h nrBytes location ∨
        FailsBelow h content nrBytes location := by
  obtain ⟨position, hafter⟩ := exists_afterAll h requests
  rw [hafter]
  by_cases hsome : location.toNat < h.subSize.toNat ∧ 0 < nrBytes.toInt
  · have hpositive : ¬ nrBytes.toInt = 0 := by omega
    rw [completeOrFails_of_request (h := { h with seekPos := position }) hn hexact hsome,
      or_iff_right hpositive]
    rfl
  · rw [completeOrFails_of_nothing (h := { h with seekPos := position }) hn hsome,
      or_iff_left_of_imp]
    rintro (⟨hend, -⟩ | ⟨hstart, -⟩)
    · by_contra hpositive
      exact hsome ⟨by omega, by omega⟩
    · by_contra hpositive
      exact hsome ⟨hstart, by omega⟩

/-- A handle on the embedded file of the small bundle. -/
def sampleHandle : PqcapSubFileHandle := ⟨FileHandle.ofContent sampleBundle, 36, 5, 0⟩

/-- Behind a seek and a read, the last three bytes of the window. -/
theorem readAt_completeOrFails_sample :
    CompleteOrFails (sampleHandle.afterAll [.seek 1, .read 2]) sampleBundle 3 2 ↔
      (3 : Int64).toInt = 0 ∨ InsideWindow sampleHandle 3 2 ∨
        FailsBelow sampleHandle sampleBundle 3 2 :=
  readAt_completeOrFails_iff (FileHandle.ofContent_exact sampleBundle (by decide +kernel))
    [.seek 1, .read 2] (by decide) 2

/-- Eight bytes from a window of five: the read returns with five. -/
theorem short_readAt_returns :
    ¬ ∀ (h : PqcapSubFileHandle) (content : Bytes), h.innerHandle.Exact content →
      ∀ (requests : List FileRequest) (nrBytes : Int64) (location : UInt64), 0 ≤ nrBytes.toInt →
        CompleteOrFails (h.afterAll requests) content nrBytes location := by
  intro h
  have hcomplete := h sampleHandle sampleBundle
    (FileHandle.ofContent_exact sampleBundle (by decide +kernel)) [] 8 0 (by decide)
  obtain ⟨error, herror⟩ := hcomplete.fails (by decide) (by decide)
  have hread : (sampleHandle.afterAll []).readAt 8 0 = .ok (ascii "PAR1!") := by decide +kernel
  rw [hread] at herror
  cases herror

end PqcapReader
