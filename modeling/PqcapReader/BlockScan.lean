import PqcapReader.Library.Words
import PqcapReader.Library.Walk
import Mathlib.Data.List.GetD

/-!
# The packet offset scan

`ScanPacketLocations` loads a capture and walks its blocks by their length fields,
recording where each enhanced and each simple packet block keeps its packet. The loop is
modelled with the 64-bit `size_t` sums of the source and over an arbitrary way of reading
a byte, so that a plain run and a bounds-checked run are instances of one definition.

`frameStep` states the same step without machine arithmetic. On every file that can exist
the two agree, and the results about the scan are proved for runs of `frameStep`.
-/

namespace PqcapReader

open ByteCodec CursorWalk

/-- `ftell` returns a `long`, so no file that the program can load is longer. -/
def FitsFile (data : Bytes) : Prop := data.length < 2 ^ 63

instance (data : Bytes) : Decidable (FitsFile data) := by
  unfold FitsFile
  infer_instance

/-- Reduction to a 64-bit `size_t`. -/
def sizeT (n : ℕ) : ℕ := n % 2 ^ 64

/-- Where a packet's bytes lie in the capture file. -/
structure PacketLocation where
  offset : UInt64
  size : UInt64
  deriving DecidableEq, Repr

section Scan

variable {m : Type → Type} [Monad m]

/-- `ReadLE32`: four bytes joined by shifts. -/
def readLE32 (read : ℕ → m UInt8) (ptr : ℕ) : m UInt32 := do
  let b0 ← read ptr
  let b1 ← read (ptr + 1)
  let b2 ← read (ptr + 2)
  let b3 ← read (ptr + 3)
  pure (b0.toUInt32 ||| (b1.toUInt32 <<< 8) ||| (b2.toUInt32 <<< 16) ||| (b3.toUInt32 <<< 24))

/-- One iteration of the loop in `ScanPacketLocations`; `none` leaves the loop. -/
def scanStep (read : ℕ → m UInt8) (size pos : ℕ) : m (Option (List PacketLocation × ℕ)) := do
  if sizeT (pos + 12) ≤ size then
    let blockType ← readLE32 read pos
    let totalLen ← readLE32 read (pos + 4)
    if totalLen < 12 ∨ sizeT (pos + totalLen.toNat) > size then
      pure none
    else
      let out ←
        if blockType = 0x00000006 ∧ totalLen ≥ 32 then do
          let capturedLen ← readLE32 read (pos + 8 + 12)
          pure [⟨UInt64.ofNat (pos + 28), capturedLen.toUInt64⟩]
        else if blockType = 0x00000003 ∧ totalLen ≥ 16 then do
          let pktLen ← readLE32 read (pos + 8)
          pure [⟨UInt64.ofNat (pos + 12), pktLen.toUInt64⟩]
        else
          pure []
      pure (some (out, sizeT (pos + totalLen.toNat)))
  else
    pure none

end Scan

/-- A plain read of the loaded file. -/
def byteAt (data : Bytes) (i : ℕ) : Id UInt8 := pure (data.getD i 0)

/-- `ScanPacketLocations` after the file is loaded into `data`. -/
def scanPacketLocations (data : Bytes) : List PacketLocation :=
  Id.run (walk (scanStep (byteAt data) data.length) (data.length + 1) 0)

/-- The type field of the block at a position. -/
def typeField (data : Bytes) (pos : ℕ) : ℕ := leValue (slice data pos 4)

/-- The total length field of the block at a position. -/
def lengthField (data : Bytes) (pos : ℕ) : ℕ := leValue (slice data (pos + 4) 4)

/-- A complete block lies at the position: its header and all the bytes its length claims. -/
def Framed (data : Bytes) (pos : ℕ) : Prop :=
  pos + 12 ≤ data.length ∧ 12 ≤ lengthField data pos ∧ pos + lengthField data pos ≤ data.length

instance (data : Bytes) (pos : ℕ) : Decidable (Framed data pos) := by
  unfold Framed
  infer_instance

/-- The position holds an enhanced or simple packet block long enough for its packet header. -/
def PacketHeader (data : Bytes) (pos : ℕ) : Prop :=
  (typeField data pos = 6 ∧ 32 ≤ lengthField data pos) ∨
    (typeField data pos = 3 ∧ 16 ≤ lengthField data pos)

instance (data : Bytes) (pos : ℕ) : Decidable (PacketHeader data pos) := by
  unfold PacketHeader
  infer_instance

/-- The location that the block at a position contributes, if it is a packet block. -/
def locationsAt (data : Bytes) (pos : ℕ) : List PacketLocation :=
  if typeField data pos = 6 ∧ 32 ≤ lengthField data pos then
    [⟨UInt64.ofNat (pos + 28), UInt64.ofNat (leValue (slice data (pos + 20) 4))⟩]
  else if typeField data pos = 3 ∧ 16 ≤ lengthField data pos then
    [⟨UInt64.ofNat (pos + 12), UInt64.ofNat (leValue (slice data (pos + 8) 4))⟩]
  else
    []

/-- The scan's step without machine arithmetic. -/
def frameStep (data : Bytes) (pos : ℕ) : Option (List PacketLocation × ℕ) :=
  if Framed data pos then some (locationsAt data pos, pos + lengthField data pos) else none

theorem locationsAt_enhanced {data : Bytes} {pos : ℕ} (htype : typeField data pos = 6)
    (hlength : 32 ≤ lengthField data pos) :
    locationsAt data pos =
      [⟨UInt64.ofNat (pos + 28), UInt64.ofNat (leValue (slice data (pos + 20) 4))⟩] :=
  if_pos ⟨htype, hlength⟩

theorem locationsAt_simple {data : Bytes} {pos : ℕ} (htype : typeField data pos = 3)
    (hlength : 16 ≤ lengthField data pos) :
    locationsAt data pos =
      [⟨UInt64.ofNat (pos + 12), UInt64.ofNat (leValue (slice data (pos + 8) 4))⟩] := by
  rw [locationsAt, if_neg (by omega), if_pos ⟨htype, hlength⟩]

/-- A block contributes a location exactly when it has a packet header. -/
theorem locationsAt_eq_nil_iff (data : Bytes) (pos : ℕ) :
    locationsAt data pos = [] ↔ ¬ PacketHeader data pos := by
  unfold locationsAt PacketHeader
  split
  · simp [*]
  · split <;> simp [*]

/-- `ReadLE32` returns the little-endian field at the pointer. -/
theorem toNat_readLE32 (data : Bytes) (pos : ℕ) (h : pos + 4 ≤ data.length) :
    (Id.run (readLE32 (byteAt data) pos)).toNat = leValue (slice data pos 4) := by
  rw [slice_four data pos h]
  exact uint32_of_bytes _ _ _ _

/-- A four-byte field stays below `2 ^ 32`. -/
theorem field_lt (data : Bytes) (start : ℕ) : leValue (slice data start 4) < 2 ^ 32 := by
  have hlength : (slice data start 4).length ≤ 4 := List.length_take_le _ _
  calc leValue (slice data start 4) < 256 ^ (slice data start 4).length := leValue_lt _
    _ ≤ 256 ^ 4 := Nat.pow_le_pow_right (by decide) hlength
    _ = 2 ^ 32 := by decide

/-- A sum that stays below `2 ^ 64` is not reduced. -/
theorem sizeT_of_lt {n : ℕ} (h : n < 2 ^ 64) : sizeT n = n := Nat.mod_eq_of_lt h

/-- A 32-bit word equals a small constant when its value does. -/
private theorem word_eq_iff (v : UInt32) (n : ℕ) (hn : n < 2 ^ 32) :
    v = UInt32.ofNat n ↔ v.toNat = n := by
  rw [← UInt32.toNat_inj, UInt32.toNat_ofNat', Nat.mod_eq_of_lt hn]

/-- On a file that can exist the machine step is the arithmetic step: no sum wraps. -/
theorem scanStep_eq_frameStep (data : Bytes) (hfile : FitsFile data) (pos : ℕ)
    (hpos : pos ≤ data.length) :
    Id.run (scanStep (byteAt data) data.length pos) = frameStep data pos := by
  have hbound : data.length < 2 ^ 63 := hfile
  have hsum : sizeT (pos + 12) = pos + 12 := sizeT_of_lt (by omega)
  simp only [scanStep, apply_ite Id.run, Id.run_bind, Id.run_pure, hsum, frameStep]
  by_cases hheader : pos + 12 ≤ data.length
  · have htype : (Id.run (readLE32 (byteAt data) pos)).toNat = typeField data pos :=
      toNat_readLE32 data pos (by omega)
    have hlen : (Id.run (readLE32 (byteAt data) (pos + 4))).toNat = lengthField data pos :=
      toNat_readLE32 data (pos + 4) (by omega)
    have hlt : lengthField data pos < 2 ^ 32 := field_lt data (pos + 4)
    have hnext : sizeT (pos + lengthField data pos) = pos + lengthField data pos :=
      sizeT_of_lt (by omega)
    generalize Id.run (readLE32 (byteAt data) pos) = typeWord at htype ⊢
    generalize Id.run (readLE32 (byteAt data) (pos + 4)) = lenWord at hlen ⊢
    have hmin : lenWord < 12 ↔ lengthField data pos < 12 := by
      rw [← hlen]
      exact UInt32.lt_iff_toNat_lt
    have h6 : (typeWord = 0x00000006 ∧ lenWord ≥ 32) ↔
        (typeField data pos = 6 ∧ 32 ≤ lengthField data pos) := by
      rw [← htype, ← hlen]
      exact and_congr (word_eq_iff _ 6 (by decide)) UInt32.le_iff_toNat_le
    have h3 : (typeWord = 0x00000003 ∧ lenWord ≥ 16) ↔
        (typeField data pos = 3 ∧ 16 ≤ lengthField data pos) := by
      rw [← htype, ← hlen]
      exact and_congr (word_eq_iff _ 3 (by decide)) UInt32.le_iff_toNat_le
    rw [if_pos hheader, hlen, hnext]
    by_cases hframed : Framed data pos
    · have hstay : ¬ (lenWord < 12 ∨ pos + lengthField data pos > data.length) := by
        obtain ⟨-, hge, hend⟩ := hframed
        rw [hmin]
        omega
      obtain ⟨-, hge, hend⟩ := id hframed
      rw [if_neg hstay, if_pos hframed, locationsAt]
      simp only [h6, h3]
      split
      · rename_i hepb
        rw [toUInt64_eq_ofNat, toNat_readLE32 data (pos + 8 + 12) (by omega)]
      · split
        · rename_i hspb
          rw [toUInt64_eq_ofNat, toNat_readLE32 data (pos + 8) (by omega)]
        · rfl
    · have hleave : lenWord < 12 ∨ pos + lengthField data pos > data.length := by
        unfold Framed at hframed
        rw [hmin]
        omega
      rw [if_pos hleave, if_neg hframed]
  · rw [if_neg hheader, if_neg fun hframed => hheader hframed.1]

/-- Everything that one step of the scan can do. -/
theorem frameStep_eq_some_iff (data : Bytes) (pos : ℕ) (out : List PacketLocation) (next : ℕ) :
    frameStep data pos = some (out, next) ↔
      Framed data pos ∧ out = locationsAt data pos ∧ next = pos + lengthField data pos := by
  unfold frameStep
  split
  · simp only [Option.some.injEq, Prod.mk.injEq, true_and, *]
    exact ⟨fun h => ⟨h.1.symm, h.2.symm⟩, fun h => ⟨h.1.symm, h.2.symm⟩⟩
  · simp [*]

/-- The scan stops exactly where no complete block lies. -/
theorem frameStep_eq_none_iff (data : Bytes) (pos : ℕ) :
    frameStep data pos = none ↔ ¬ Framed data pos := by
  unfold frameStep
  split <;> simp [*]

/-- Each step stays inside the file and moves forward. -/
theorem frameStep_advances (data : Bytes) (pos : ℕ) (out : List PacketLocation) (next : ℕ)
    (h : frameStep data pos = some (out, next)) :
    next ≤ data.length ∧ data.length - next < data.length - pos := by
  obtain ⟨⟨hheader, hmin, hend⟩, -, rfl⟩ := (frameStep_eq_some_iff data pos out next).mp h
  omega

/-- From every position the scan reaches an end. -/
theorem exists_frame_walk (data : Bytes) (pos : ℕ) :
    ∃ outs last, Walks (frameStep data) pos outs last :=
  exists_walks (fun _ => True) (fun pos => data.length - pos)
    (fun pos out next _ h => ⟨trivial, (frameStep_advances data pos out next h).2⟩) pos trivial

/-- A run of the arithmetic step is a run of the source's own step. -/
theorem walks_scanStep (data : Bytes) (hfile : FitsFile data) {outs : List PacketLocation}
    {last : ℕ} (h : Walks (frameStep data) 0 outs last) :
    Walks (fun pos => Id.run (scanStep (byteAt data) data.length pos)) 0 outs last := by
  have hkeep : ∀ pos out next, pos ≤ data.length → frameStep data pos = some (out, next) →
      next ≤ data.length := fun pos out next _ hstep =>
    (frameStep_advances data pos out next hstep).1
  exact h.congr (fun pos => pos ≤ data.length) hkeep
    (fun pos hpos => scanStep_eq_frameStep data hfile pos hpos) (Nat.zero_le _)

/-- The loop of the source computes the complete run of the arithmetic step. -/
theorem scanPacketLocations_eq_of_walks (data : Bytes) (hfile : FitsFile data)
    {outs : List PacketLocation} {last : ℕ} (h : Walks (frameStep data) 0 outs last) :
    scanPacketLocations data = outs := by
  refine walk_eq_of_walks (fun pos => pos ≤ data.length) (fun pos => data.length - pos)
    (fun pos out next hpos hstep => ?_) (walks_scanStep data hfile h) (Nat.zero_le _) (by omega)
  rw [scanStep_eq_frameStep data hfile pos hpos] at hstep
  exact frameStep_advances data pos out next hstep

end PqcapReader
