import PqcapReader.Library.Bytes
import Mathlib.Data.UInt

/-!
# Fixed-width integers as numbers

Conversions between signed and unsigned words keep the bits. These lemmas say what that
does to the numbers they denote, and that a byte promoted to `int` may be shifted there.
-/

namespace ByteCodec

/-- A signed word is its unsigned reading, less `2 ^ 64` when the top bit is set. -/
theorem int64_toInt (n : Int64) :
    n.toInt = if n.toUInt64.toNat < 2 ^ 63 then (n.toUInt64.toNat : ℤ)
      else (n.toUInt64.toNat : ℤ) - 2 ^ 64 := by
  have h := BitVec.toInt_eq_toNat_cond n.toBitVec
  change n.toInt = if 2 * n.toUInt64.toNat < 2 ^ 64 then (n.toUInt64.toNat : ℤ)
      else (n.toUInt64.toNat : ℤ) - ((2 ^ 64 : ℕ) : ℤ) at h
  rw [h]
  split <;> split <;> omega

/-- A nonnegative signed word keeps its value when its sign is dropped. -/
theorem toNat_toUInt64 (n : Int64) (h : 0 ≤ n.toInt) : (n.toUInt64.toNat : ℤ) = n.toInt := by
  have hbits := n.toUInt64.toNat_lt
  rw [int64_toInt] at h ⊢
  split <;> omega

/-- A nonnegative signed 32-bit word keeps its value when its sign is dropped. -/
theorem toNat_toUInt32 (n : Int32) (h : 0 ≤ n.toInt) : (n.toUInt32.toNat : ℤ) = n.toInt := by
  have hbits := n.toUInt32.toNat_lt
  have hcond := BitVec.toInt_eq_toNat_cond n.toBitVec
  change n.toInt = if 2 * n.toUInt32.toNat < 2 ^ 32 then (n.toUInt32.toNat : ℤ)
      else (n.toUInt32.toNat : ℤ) - ((2 ^ 32 : ℕ) : ℤ) at hcond
  rw [hcond] at h ⊢
  split <;> omega

/-- An unsigned word below `2 ^ 63` keeps its value as a signed word. -/
theorem toInt_toInt64 (n : UInt64) (h : n.toNat < 2 ^ 63) : n.toInt64.toInt = n.toNat := by
  rw [int64_toInt]
  exact if_pos h

/-- Modulo `2 ^ 64` a signed word is its unsigned reading. -/
theorem int64_emod (n : Int64) : n.toInt % 2 ^ 64 = n.toUInt64.toNat := by
  have hbits := n.toUInt64.toNat_lt
  rw [int64_toInt]
  split <;> omega

theorem uint64_ofNat_toNat {n : ℕ} (h : n < 2 ^ 64) : (UInt64.ofNat n).toNat = n := by
  rw [UInt64.toNat_ofNat', Nat.mod_eq_of_lt h]

/-- A 32-bit word widens to the 64-bit word of the same value. -/
theorem toUInt64_eq_ofNat (n : UInt32) : n.toUInt64 = UInt64.ofNat n.toNat := by
  have hbits := n.toNat_lt
  apply UInt64.toNat_inj.mp
  rw [UInt32.toNat_toUInt64, uint64_ofNat_toNat (by omega)]

/-- A byte after the usual promotion to `int`. -/
def promote (byte : UInt8) : Int32 := Int32.ofNat byte.toNat

/-- Shifting the promoted byte and dropping the sign shifts the unsigned byte, also where
the shift moves a one into the sign bit. -/
theorem promote_shiftLeft (byte : UInt8) :
    (promote byte <<< 8).toUInt32 = byte.toUInt32 <<< 8 ∧
      (promote byte <<< 16).toUInt32 = byte.toUInt32 <<< 16 ∧
        (promote byte <<< 24).toUInt32 = byte.toUInt32 <<< 24 := by
  have hbits : BitVec.ofNat 32 byte.toNat = byte.toBitVec.setWidth 32 := by
    apply BitVec.eq_of_toNat_eq
    rw [BitVec.toNat_ofNat, BitVec.toNat_setWidth]
    rfl
  refine ⟨?_, ?_, ?_⟩ <;>
  · apply UInt32.toBitVec_inj.mp
    change BitVec.ofNat 32 byte.toNat <<< _ = byte.toBitVec.setWidth 32 <<< _
    rw [hbits]
    rfl

section Encoding

/-- A mask of one byte at bit `k` keeps that byte in its place. -/
theorem toNat_and_byteMask (word mask : UInt32) {k : ℕ} (hmask : mask.toNat = 255 <<< k) :
    (word &&& mask).toNat = word.toNat / 2 ^ k % 256 * 2 ^ k := by
  have hbits : word.toNat &&& (255 <<< k) = ((word.toNat >>> k) &&& 255) <<< k := by
    apply Nat.eq_of_testBit_eq
    intro i
    rw [Nat.testBit_and, Nat.testBit_shiftLeft, Nat.testBit_shiftLeft, Nat.testBit_and,
      Nat.testBit_shiftRight]
    by_cases hk : k ≤ i
    · simp [hk]
    · simp [hk]
  have hlow : (255 : ℕ) = 2 ^ 8 - 1 := rfl
  rw [UInt32.toNat_and, hmask, hbits, hlow, Nat.and_two_pow_sub_one_eq_mod, Nat.shiftLeft_eq,
    Nat.shiftRight_eq_div_pow]

/-- The two bytes that masks and shifts take out of a 16-bit word. -/
theorem leBytes_uint16 (v : UInt16) :
    leBytes 2 v.toNat = [(v &&& 0xff).toUInt8, ((v >>> 8) &&& 0xff).toUInt8] := by
  have hcount : (8 : UInt16).toNat % 16 = 8 := rfl
  have hmask : (0xff : UInt16).toNat = 2 ^ 8 - 1 := rfl
  simp only [leBytes, List.cons.injEq, and_true, ← UInt8.toNat_inj, UInt8.toNat_ofNat',
    UInt16.toNat_toUInt8, UInt16.toNat_and, UInt16.toNat_shiftRight, hcount, hmask,
    Nat.and_two_pow_sub_one_eq_mod, Nat.shiftRight_eq_div_pow]
  omega

/-- The four bytes that masks and shifts take out of a 32-bit word. -/
theorem leBytes_uint32 (v : UInt32) :
    leBytes 4 v.toNat = [(v &&& 0xff).toUInt8, ((v >>> 8) &&& 0xff).toUInt8,
      ((v >>> 16) &&& 0xff).toUInt8, ((v >>> 24) &&& 0xff).toUInt8] := by
  have h8 : (8 : UInt32).toNat % 32 = 8 := rfl
  have h16 : (16 : UInt32).toNat % 32 = 16 := rfl
  have h24 : (24 : UInt32).toNat % 32 = 24 := rfl
  have hmask : (0xff : UInt32).toNat = 2 ^ 8 - 1 := rfl
  simp only [leBytes, List.cons.injEq, and_true, ← UInt8.toNat_inj, UInt8.toNat_ofNat',
    UInt32.toNat_toUInt8, UInt32.toNat_and, UInt32.toNat_shiftRight, h8, h16, h24, hmask,
    Nat.and_two_pow_sub_one_eq_mod, Nat.shiftRight_eq_div_pow]
  omega

/-- Byte `i` of a little-endian field. -/
theorem leBytes_eq_map (width value : ℕ) :
    leBytes width value = (List.range width).map fun i => UInt8.ofNat (value / 256 ^ i) := by
  induction width generalizing value with
  | zero => rfl
  | succ width ih =>
    rw [leBytes, ih, List.range_succ_eq_map, List.map_cons, List.map_map, pow_zero, Nat.div_one]
    congr 1
    apply List.map_congr_left
    intro i _
    rw [Function.comp_apply, pow_succ', ← Nat.div_div_eq_div_mul]

/-- The eight bytes that masks and shifts take out of a 64-bit word. -/
theorem leBytes_uint64 (v : UInt64) :
    leBytes 8 v.toNat = (List.range 8).map fun i =>
      ((v >>> UInt64.ofNat (i * 8)) &&& 0xff).toUInt8 := by
  rw [leBytes_eq_map]
  apply List.map_congr_left
  intro i hi
  have hsmall : i < 8 := List.mem_range.mp hi
  have hcount : (UInt64.ofNat (i * 8)).toNat % 64 = 8 * i := by
    rw [uint64_ofNat_toNat (by omega)]
    omega
  have hmask : (0xff : UInt64).toNat = 2 ^ 8 - 1 := rfl
  have hpow : 2 ^ (8 * i) = 256 ^ i := pow_mul 2 8 i
  simp only [← UInt8.toNat_inj, UInt8.toNat_ofNat', UInt64.toNat_toUInt8, UInt64.toNat_and,
    UInt64.toNat_shiftRight, hcount, hmask, Nat.and_two_pow_sub_one_eq_mod,
    Nat.shiftRight_eq_div_pow, hpow]
  omega

end Encoding

end ByteCodec
