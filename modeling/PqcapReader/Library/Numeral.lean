import PqcapReader.Library.Bytes
import Mathlib.Data.Nat.Digits.Defs
import Mathlib.Data.Nat.Digits.Lemmas

/-!
# Printed numbers

Numerals most significant digit first, as formatted output writes them, and the value
a reader assigns to a run of decimal digits. Zero prints as one digit, so no numeral is
empty and reading a printed number returns it.
-/

namespace ByteCodec

/-- The digits of a number, most significant first; a single zero for zero. -/
def numeral (base n : ℕ) : List ℕ := if n = 0 then [0] else (Nat.digits base n).reverse

/-- The character of a digit, with lower-case letters past nine. -/
def digitByte (digit : ℕ) : UInt8 := UInt8.ofNat (if digit < 10 then 48 + digit else 87 + digit)

/-- The character of a digit, with upper-case letters past nine. -/
def upperDigitByte (digit : ℕ) : UInt8 :=
  UInt8.ofNat (if digit < 10 then 48 + digit else 55 + digit)

/-- A number printed in base ten. -/
def decimal (n : ℕ) : Bytes := (numeral 10 n).map digitByte

/-- A number printed in lower-case base sixteen. -/
def hexadecimal (n : ℕ) : Bytes := (numeral 16 n).map digitByte

/-- A number printed in upper-case base sixteen, filled up with zeros to a least width. -/
def paddedHexadecimal (width n : ℕ) : Bytes :=
  List.replicate (width - (numeral 16 n).length) 48 ++ (numeral 16 n).map upperDigitByte

/-- A character between `0` and `9`. -/
def isDigit (c : UInt8) : Bool := decide (48 ≤ c) && decide (c ≤ 57)

/-- The number a run of decimal digits denotes. -/
def digitsValue (digits : Bytes) : ℕ := digits.foldl (fun value c => 10 * value + (c.toNat - 48)) 0

/-- No numeral is empty. -/
theorem numeral_ne_nil (base n : ℕ) : numeral base n ≠ [] := by
  rw [numeral]
  split
  · exact List.cons_ne_nil _ _
  · simpa using Nat.digits_ne_nil_iff_ne_zero.mpr ‹_›

/-- The digits of a numeral are below its base. -/
theorem numeral_lt_base {base : ℕ} (hbase : 1 < base) (n : ℕ) :
    ∀ digit ∈ numeral base n, digit < base := by
  intro digit hdigit
  rw [numeral] at hdigit
  split at hdigit
  · have : digit = 0 := List.mem_singleton.mp hdigit
    omega
  · exact Nat.digits_lt_base hbase (List.mem_reverse.mp hdigit)

/-- A numeral denotes its number, also with zeros in front. -/
theorem ofDigits_numeral (base width n : ℕ) :
    Nat.ofDigits base (List.replicate width 0 ++ numeral base n).reverse = n := by
  rw [List.reverse_append, List.reverse_replicate, Nat.ofDigits_append_replicate_zero, numeral]
  split
  · rename_i hzero
    rw [hzero]
    rfl
  · rw [List.reverse_reverse, Nat.ofDigits_digits]

/-- A decimal digit keeps its value through its character. -/
theorem toNat_digitByte {digit : ℕ} (h : digit < 10) : (digitByte digit).toNat = 48 + digit := by
  simp only [digitByte, if_pos h, UInt8.toNat_ofNat']
  omega

/-- A printed decimal number is not empty. -/
theorem decimal_ne_nil (n : ℕ) : decimal n ≠ [] := by
  simpa [decimal] using numeral_ne_nil 10 n

/-- A printed decimal number consists of digits, so it holds no separator. -/
theorem decimal_isDigit (n : ℕ) : ∀ c ∈ decimal n, isDigit c = true := by
  intro c hc
  obtain ⟨digit, hdigit, rfl⟩ := List.mem_map.mp hc
  have hlt := numeral_lt_base (by decide) n digit hdigit
  have hval := toNat_digitByte hlt
  simp only [isDigit, Bool.and_eq_true, decide_eq_true_eq, UInt8.le_iff_toNat_le, hval]
  constructor
  · exact Nat.le_add_right 48 digit
  · show 48 + digit ≤ 57
    omega

/-- Reading digits left to right is evaluating them most significant first. -/
theorem digitsValue_map_digitByte (digits : List ℕ) (h : ∀ digit ∈ digits, digit < 10) :
    digitsValue (digits.map digitByte) = Nat.ofDigits 10 digits.reverse := by
  have hstep : ∀ (values : List ℕ) (start : ℕ), (∀ digit ∈ values, digit < 10) →
      (values.map digitByte).foldl (fun value c => 10 * value + (c.toNat - 48)) start =
        values.foldl (fun value digit => digit + 10 * value) start := by
    intro values
    induction values with
    | nil => intros; rfl
    | cons digit rest ih =>
      intro start hrest
      have hdigit := toNat_digitByte (hrest digit List.mem_cons_self)
      simp only [List.map_cons, List.foldl_cons, hdigit]
      rw [ih _ fun d hd => hrest d (List.mem_cons_of_mem _ hd)]
      congr 1
      omega
  rw [digitsValue, hstep digits 0 h, Nat.ofDigits_eq_foldr, List.foldr_reverse]
  rfl

/-- Reading a printed decimal number returns it. -/
theorem digitsValue_decimal (n : ℕ) : digitsValue (decimal n) = n := by
  rw [decimal, digitsValue_map_digitByte _ (numeral_lt_base (by decide) n)]
  exact ofDigits_numeral 10 0 n

section Injectivity

/-- Characters that tell the digits of base sixteen apart tell digit strings apart. -/
theorem map_digits_injOn {character : ℕ → UInt8}
    (hcharacter : ∀ digit < 16, ∀ digit' < 16, character digit = character digit' → digit = digit')
    {digits digits' : List ℕ} (hdigits : ∀ digit ∈ digits, digit < 16)
    (hdigits' : ∀ digit ∈ digits', digit < 16)
    (h : digits.map character = digits'.map character) : digits = digits' := by
  induction digits generalizing digits' with
  | nil => exact (List.map_eq_nil_iff.mp h.symm).symm
  | cons digit rest ih =>
    cases digits' with
    | nil => cases h
    | cons digit' rest' =>
      rw [List.forall_mem_cons] at hdigits hdigits'
      rw [List.map_cons, List.map_cons, List.cons.injEq] at h
      rw [hcharacter digit hdigits.1 digit' hdigits'.1 h.1, ih hdigits.2 hdigits'.2 h.2]

theorem digitByte_injOn :
    ∀ digit < 16, ∀ digit' < 16, digitByte digit = digitByte digit' → digit = digit' := by
  decide

theorem upperDigitByte_injOn :
    ∀ digit < 16, ∀ digit' < 16, upperDigitByte digit = upperDigitByte digit' → digit = digit' := by
  decide

/-- Different numbers have different decimal numerals. -/
theorem decimal_injective : Function.Injective decimal :=
  Function.LeftInverse.injective digitsValue_decimal

/-- Different numbers have different hexadecimal numerals. -/
theorem hexadecimal_injective : Function.Injective hexadecimal := by
  intro n n' h
  have hdigits := map_digits_injOn digitByte_injOn (numeral_lt_base (by decide) n)
    (numeral_lt_base (by decide) n') h
  rw [← ofDigits_numeral 16 0 n, hdigits]
  exact ofDigits_numeral 16 0 n'

/-- Zeros in front of a numeral do not make different numbers alike. -/
theorem paddedHexadecimal_injective (width : ℕ) : Function.Injective (paddedHexadecimal width) := by
  have hzero : (48 : UInt8) = upperDigitByte 0 := by decide
  have hprinted (n : ℕ) : paddedHexadecimal width n =
      (List.replicate (width - (numeral 16 n).length) 0 ++ numeral 16 n).map upperDigitByte := by
    rw [paddedHexadecimal, List.map_append, List.map_replicate, ← hzero]
  have hsmall (zeros n : ℕ) :
      ∀ digit ∈ List.replicate zeros 0 ++ numeral 16 n, digit < 16 := by
    intro digit hdigit
    rcases List.mem_append.mp hdigit with hfront | hdigit
    · rw [List.eq_of_mem_replicate hfront]
      decide
    · exact numeral_lt_base (by decide) n digit hdigit
  intro n n' h
  rw [hprinted, hprinted] at h
  have hdigits := map_digits_injOn upperDigitByte_injOn (hsmall _ n) (hsmall _ n') h
  rw [← ofDigits_numeral 16 (width - (numeral 16 n).length) n, hdigits]
  exact ofDigits_numeral 16 _ n'

/-- A printed hexadecimal number consists of digits, so it holds no separator. -/
theorem not_mem_hexadecimal {c : UInt8} (h : ∀ digit < 16, digitByte digit ≠ c) (n : ℕ) :
    c ∉ hexadecimal n := by
  intro hmem
  obtain ⟨digit, hdigit, hc⟩ := List.mem_map.mp hmem
  exact h digit (numeral_lt_base (by decide) n digit hdigit) hc

end Injectivity

section Printable

/-- The bytes are visible ASCII characters and blanks. -/
def Printable (text : Bytes) : Prop := ∀ c ∈ text, 32 ≤ c ∧ c ≤ 126

instance (text : Bytes) : Decidable (Printable text) :=
  List.decidableBAll (fun c => 32 ≤ c ∧ c ≤ 126) text

theorem Printable.append {text text' : Bytes} (h : Printable text) (h' : Printable text') :
    Printable (text ++ text') := by
  intro c hc
  rcases List.mem_append.mp hc with hc | hc
  · exact h c hc
  · exact h' c hc

/-- Printable pieces stay printable behind a printable separator. -/
theorem Printable.intercalate {sep : UInt8} (hsep : 32 ≤ sep ∧ sep ≤ 126) {pieces : List Bytes}
    (h : ∀ piece ∈ pieces, Printable piece) : Printable ([sep].intercalate pieces) := by
  intro c hc
  rcases mem_intercalate hc with rfl | ⟨piece, hpiece, hc⟩
  · exact hsep
  · exact h piece hpiece c hc

/-- The digits of a base up to sixteen have visible characters. -/
theorem printable_numeral {base : ℕ} (hbase : 1 < base) (hsmall : base ≤ 16)
    {character : ℕ → UInt8} (hcharacter : ∀ digit < 16, 32 ≤ character digit ∧ character digit ≤ 126)
    (n : ℕ) : Printable ((numeral base n).map character) := by
  intro c hc
  obtain ⟨digit, hdigit, rfl⟩ := List.mem_map.mp hc
  exact hcharacter digit (lt_of_lt_of_le (numeral_lt_base hbase n digit hdigit) hsmall)

theorem printable_decimal (n : ℕ) : Printable (decimal n) :=
  printable_numeral (by decide) (by decide) (by decide) n

theorem printable_hexadecimal (n : ℕ) : Printable (hexadecimal n) :=
  printable_numeral (by decide) (by decide) (by decide) n

theorem printable_paddedHexadecimal (width n : ℕ) : Printable (paddedHexadecimal width n) := by
  have hzeros (zeros : ℕ) : Printable (List.replicate zeros 48) := by
    intro c hc
    rw [List.eq_of_mem_replicate hc]
    decide
  exact (hzeros _).append (printable_numeral (by decide) (by decide) (by decide) n)

end Printable

end ByteCodec
