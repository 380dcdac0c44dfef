import Mathlib.Data.List.Basic
import Mathlib.Data.List.GetD
import Mathlib.Tactic.Ring
import Mathlib.Tactic.Linarith

/-!
# Byte strings, slices, and little-endian fields

A slice is the window of a list at an offset, and a join puts a separator between pieces.
Little-endian fields are given arithmetically, by `leBytes` and `leValue`; the
shift-and-or decoders that programs write over fixed-width words are then equal to
`leValue`.
-/

namespace ByteCodec

/-- A string of bytes, as files and character buffers hold it. -/
abbrev Bytes := List UInt8

/-- The bytes of a text literal, one for each character code below 256. -/
def ascii (text : String) : Bytes := text.toList.map fun c => UInt8.ofNat c.toNat

section Slices

variable {A : Type*}

/-- The `size` elements that start at `offset`; fewer when the list ends first. -/
def slice (values : List A) (offset size : ℕ) : List A := (values.drop offset).take size

/-- A window inside the list has the requested size. -/
theorem slice_length (values : List A) (offset size : ℕ) (h : offset + size ≤ values.length) :
    (slice values offset size).length = size := by
  simp only [slice, List.length_take, List.length_drop]
  omega

/-- A range within a beginning of the values. -/
theorem slice_take (values : List A) {offset size n : ℕ} (h : offset + size ≤ n) :
    slice (values.take n) offset size = slice values offset size := by
  rw [slice, slice, List.drop_take, List.take_take, Nat.min_eq_left (by omega)]

/-- Extending the list keeps every window that lies inside it. -/
theorem slice_append_left (values rest : List A) (offset size : ℕ)
    (h : offset + size ≤ values.length) :
    slice (values ++ rest) offset size = slice values offset size := by
  simp only [slice]
  rw [List.drop_append_of_le_length (by omega), List.take_append_of_le_length]
  rw [List.length_drop]
  omega

/-- A window past a prefix is the same window of the remainder. -/
theorem slice_append_right (front values : List A) (offset size : ℕ) :
    slice (front ++ values) (front.length + offset) size = slice values offset size := by
  simp only [slice, List.drop_append, List.drop_eq_nil_of_le (Nat.le_add_right _ _),
    List.nil_append, Nat.add_sub_cancel_left]

/-- The window that starts after `front` and has the size of the next field is that field. -/
theorem slice_field {front field : List A} (back : List A) {offset size : ℕ}
    (hoffset : front.length = offset) (hsize : field.length = size) :
    slice (front ++ (field ++ back)) offset size = field := by
  rw [slice, List.drop_left' hoffset, List.take_left' hsize]

theorem slice_front (field back : List A) {size : ℕ} (hsize : field.length = size) :
    slice (field ++ back) 0 size = field :=
  List.take_left' hsize

/-- In a concatenation of fields, the window at the total size of the fields before one is it. -/
theorem slice_flatten {fields : List (List A)} {i offset size : ℕ} {field : List A}
    (hfield : fields[i]? = some field) (hoffset : ((fields.take i).map List.length).sum = offset)
    (hsize : field.length = size) : slice fields.flatten offset size = field := by
  obtain ⟨hi, rfl⟩ := List.getElem?_eq_some_iff.mp hfield
  have hsplit : fields.flatten =
      (fields.take i).flatten ++ (fields[i] ++ (fields.drop (i + 1)).flatten) := by
    rw [← List.flatten_cons, ← List.drop_eq_getElem_cons hi, ← List.flatten_append,
      List.take_append_drop]
  rw [hsplit]
  exact slice_field _ (by rw [List.length_flatten, hoffset]) hsize

/-- A slice of a slice is a slice of the whole, clipped to the outer window. -/
theorem slice_slice (values : List A) (offset size start count : ℕ) :
    slice (slice values offset size) start count =
      slice values (offset + start) (min count (size - start)) := by
  simp only [slice, List.drop_take, List.take_take, List.drop_drop]

/-- Two adjacent windows make up the window that covers both. -/
theorem slice_add (values : List A) (offset left right : ℕ) :
    slice values offset left ++ slice values (offset + left) right =
      slice values offset (left + right) := by
  simp only [slice, List.take_add, List.drop_drop]

/-- Pieces of one size, taken one after the other, make up the list as far as they go. -/
theorem flatten_eq_take {values : List A} {size : ℕ} {pieces : List (List A)}
    (h : ∀ i piece, pieces[i]? = some piece → piece = slice values (i * size) size) :
    pieces.flatten = values.take (pieces.length * size) := by
  induction pieces generalizing values with
  | nil => simp
  | cons first pieces ih =>
    have hfirst : first = values.take size := by
      have h := h 0 first rfl
      rwa [Nat.zero_mul, slice, List.drop_zero] at h
    have hrest : pieces.flatten = (values.drop size).take (pieces.length * size) := by
      apply ih
      intro i piece hpiece
      have hstart : (i + 1) * size = size + i * size := by ring
      rw [h (i + 1) piece hpiece, slice, slice, List.drop_drop, hstart]
    have hlength : (first :: pieces).length * size = size + pieces.length * size := by
      rw [List.length_cons]
      ring
    rw [hlength, List.take_add, List.flatten_cons, hfirst, hrest]

/-- A window inside the list holds the elements at its positions. -/
theorem slice_eq_map_getD (values : List A) (default : A) (offset size : ℕ)
    (h : offset + size ≤ values.length) :
    slice values offset size =
      (List.range size).map fun i => values.getD (offset + i) default := by
  apply List.ext_getElem
  · rw [slice_length values offset size h, List.length_map, List.length_range]
  · intro i hleft hright
    rw [slice_length values offset size h] at hleft
    have hindex : offset + i < values.length := by omega
    simp only [slice, List.getElem_take, List.getElem_drop, List.getElem_map,
      List.getElem_range]
    rw [List.getD_eq_getElem values default hindex]

/-- The first separator is the one after a prefix that holds none. -/
theorem idxOf?_append_cons [DecidableEq A] {front : List A} {sep : A} (rest : List A)
    (h : sep ∉ front) : (front ++ sep :: rest).idxOf? sep = some front.length := by
  induction front with
  | nil => simp [List.idxOf?, List.findIdx?_cons]
  | cons first tail ih =>
    have hfirst : first ≠ sep := fun heq => h (heq ▸ List.mem_cons_self)
    have htail := ih fun hmem => h (List.mem_cons_of_mem _ hmem)
    rw [List.idxOf?] at htail ⊢
    rw [List.cons_append, List.findIdx?_cons, if_neg (by simpa using hfirst), htail]
    rfl

/-- A list is split by the first separator that is found in it. -/
theorem split_of_idxOf? [DecidableEq A] {values : List A} {sep : A} {i : ℕ}
    (h : values.idxOf? sep = some i) :
    values = values.take i ++ sep :: values.drop (i + 1) ∧ sep ∉ values.take i := by
  obtain ⟨hi, hsep, hfirst⟩ := List.idxOf?_eq_some_iff.mp h
  constructor
  · nth_rewrite 1 [← List.take_append_drop i values]
    rw [List.drop_eq_getElem_cons hi, hsep]
  · intro hmem
    obtain ⟨j, hj, heq⟩ := List.mem_take_iff_getElem.mp hmem
    exact hfirst j (by omega) heq

/-- A two-byte window is the list of its two bytes. -/
theorem slice_two (data : Bytes) (pos : ℕ) (h : pos + 2 ≤ data.length) :
    slice data pos 2 = [data.getD pos 0, data.getD (pos + 1) 0] :=
  slice_eq_map_getD data 0 pos 2 h

/-- A four-byte window is the list of its four bytes. -/
theorem slice_four (data : Bytes) (pos : ℕ) (h : pos + 4 ≤ data.length) :
    slice data pos 4 =
      [data.getD pos 0, data.getD (pos + 1) 0, data.getD (pos + 2) 0, data.getD (pos + 3) 0] :=
  slice_eq_map_getD data 0 pos 4 h

end Slices

section Joins

variable {A : Type*} {sep : A}

/-- Pieces without the separator are recovered from their join. -/
theorem intercalate_injOn [DecidableEq A] {pieces pieces' : List (List A)} (hpieces : pieces ≠ [])
    (hpieces' : pieces' ≠ []) (hfree : ∀ piece ∈ pieces, sep ∉ piece)
    (hfree' : ∀ piece ∈ pieces', sep ∉ piece)
    (h : [sep].intercalate pieces = [sep].intercalate pieces') : pieces = pieces' := by
  rw [← List.splitOn_intercalate sep hfree hpieces, h, List.splitOn_intercalate sep hfree' hpieces']

/-- An element of a join is the separator or lies in a piece. -/
theorem mem_intercalate {element : A} {pieces : List (List A)}
    (h : element ∈ [sep].intercalate pieces) :
    element = sep ∨ ∃ piece ∈ pieces, element ∈ piece := by
  induction pieces with
  | nil => cases h
  | cons piece rest ih =>
    cases rest with
    | nil =>
      rw [List.intercalate_singleton] at h
      exact .inr ⟨piece, List.mem_cons_self, h⟩
    | cons next rest =>
      rw [List.intercalate_cons_cons, List.mem_append, List.mem_append, List.mem_singleton] at h
      rcases h with (hpiece | hsep) | hrest
      · exact .inr ⟨piece, List.mem_cons_self, hpiece⟩
      · exact .inl hsep
      · rcases ih hrest with hsep | ⟨found, hfound, helement⟩
        · exact .inl hsep
        · exact .inr ⟨found, List.mem_cons_of_mem _ hfound, helement⟩

/-- A join whose first piece is not empty is not empty. -/
theorem intercalate_ne_nil {piece : List A} {rest : List (List A)} (h : piece ≠ []) :
    [sep].intercalate (piece :: rest) ≠ [] := by
  cases rest with
  | nil =>
    rw [List.intercalate_singleton]
    exact h
  | cons next rest =>
    rw [List.intercalate_cons_cons, List.append_assoc]
    exact List.append_ne_nil_of_left_ne_nil h _

end Joins

section LittleEndian

/-- The `width` low bytes of a natural number, least significant first. -/
def leBytes : ℕ → ℕ → Bytes
  | 0, _ => []
  | width + 1, value => UInt8.ofNat value :: leBytes width (value / 256)

/-- The natural number that a little-endian byte string denotes. -/
def leValue : Bytes → ℕ
  | [] => 0
  | byte :: rest => byte.toNat + 256 * leValue rest

@[simp] theorem leBytes_length (width value : ℕ) : (leBytes width value).length = width := by
  induction width generalizing value with
  | zero => rfl
  | succ width ih => simp only [leBytes, List.length_cons, ih]

/-- Decoding returns the encoded number, reduced to the field's width. -/
theorem leValue_leBytes (width value : ℕ) : leValue (leBytes width value) = value % 256 ^ width := by
  induction width generalizing value with
  | zero => simp [leBytes, leValue, Nat.mod_one]
  | succ width ih =>
    have hbyte : (UInt8.ofNat value).toNat = value % 256 := by simp
    rw [leBytes, leValue, ih, hbyte, pow_succ', Nat.mod_mul]

/-- A number that fits the field decodes to itself. -/
theorem leValue_leBytes_of_lt {width value : ℕ} (h : value < 256 ^ width) :
    leValue (leBytes width value) = value := by
  rw [leValue_leBytes, Nat.mod_eq_of_lt h]

/-- Encoding the value of a field returns the field. -/
theorem leBytes_leValue (bytes : Bytes) : leBytes bytes.length (leValue bytes) = bytes := by
  induction bytes with
  | nil => rfl
  | cons byte rest ih =>
    have hbyte := byte.toNat_lt
    have hlow : UInt8.ofNat (byte.toNat + 256 * leValue rest) = byte := by
      rw [← UInt8.toNat_inj, UInt8.toNat_ofNat']
      omega
    have hhigh : (byte.toNat + 256 * leValue rest) / 256 = leValue rest := by omega
    rw [List.length_cons, leBytes, leValue, hlow, hhigh, ih]

/-- A field of `n` bytes is below `256 ^ n`. -/
theorem leValue_lt (bytes : Bytes) : leValue bytes < 256 ^ bytes.length := by
  induction bytes with
  | nil => simp [leValue]
  | cons byte rest ih =>
    have hbyte := byte.toNat_lt
    rw [leValue, List.length_cons, pow_succ]
    omega

/-- A concatenation denotes its low part plus the scaled high part. -/
theorem leValue_append (low high : Bytes) :
    leValue (low ++ high) = leValue low + 256 ^ low.length * leValue high := by
  induction low with
  | nil => simp [leValue]
  | cons byte rest ih =>
    rw [List.cons_append, leValue, leValue, ih, List.length_cons, pow_succ]
    ring

end LittleEndian

section WordDecoders

/-- Or-ing bits above `i` into a number below `2 ^ i` is addition. -/
private theorem or_shift_eq_add {low : ℕ} (high i : ℕ) (h : low < 2 ^ i) :
    low ||| high <<< i = low + high * 2 ^ i := by
  rw [Nat.or_comm, ← Nat.shiftLeft_add_eq_or_of_lt h, Nat.shiftLeft_eq, Nat.add_comm]

/-- Two bytes joined by a shift are their little-endian value. -/
theorem uint16_of_bytes (b0 b1 : UInt8) :
    (b0.toUInt16 ||| (b1.toUInt16 <<< 8)).toNat = leValue [b0, b1] := by
  have h0 := b0.toNat_lt
  have h1 := b1.toNat_lt
  have hcount : (8 : UInt16).toNat % 16 = 8 := rfl
  have hshift : (b1.toUInt16 <<< 8).toNat = b1.toNat <<< 8 := by
    rw [UInt16.toNat_shiftLeft, UInt8.toNat_toUInt16, hcount, Nat.shiftLeft_eq]
    omega
  rw [UInt16.toNat_or, hshift, UInt8.toNat_toUInt16, or_shift_eq_add _ _ (by omega)]
  simp only [leValue]
  omega

/-- A byte shifted inside a 32-bit word loses nothing. -/
private theorem toNat_byte_shift (b : UInt8) (k : UInt32) (hk : k.toNat ≤ 24) :
    (b.toUInt32 <<< k).toNat = b.toNat <<< k.toNat := by
  have hb := b.toNat_lt
  have hpow : 2 ^ k.toNat ≤ 2 ^ 24 := Nat.pow_le_pow_right (by decide) hk
  rw [UInt32.toNat_shiftLeft, UInt8.toNat_toUInt32, Nat.mod_eq_of_lt (by omega : k.toNat < 32),
    Nat.shiftLeft_eq]
  apply Nat.mod_eq_of_lt
  calc b.toNat * 2 ^ k.toNat ≤ 255 * 2 ^ 24 := Nat.mul_le_mul (by omega) hpow
    _ < 2 ^ 32 := by decide

/-- Four bytes joined by shifts are their little-endian value. -/
theorem uint32_of_bytes (b0 b1 b2 b3 : UInt8) :
    (b0.toUInt32 ||| (b1.toUInt32 <<< 8) ||| (b2.toUInt32 <<< 16) ||| (b3.toUInt32 <<< 24)).toNat =
      leValue [b0, b1, b2, b3] := by
  have h0 := b0.toNat_lt
  have h1 := b1.toNat_lt
  have h2 := b2.toNat_lt
  have h3 := b3.toNat_lt
  have e1 : (8 : UInt32).toNat = 8 := rfl
  have e2 : (16 : UInt32).toNat = 16 := rfl
  have e3 : (24 : UInt32).toNat = 24 := rfl
  simp only [UInt32.toNat_or]
  rw [toNat_byte_shift b1 8 (by decide), toNat_byte_shift b2 16 (by decide),
    toNat_byte_shift b3 24 (by decide), UInt8.toNat_toUInt32, e1, e2, e3,
    or_shift_eq_add _ 8 (by omega), or_shift_eq_add _ 16 (by omega), or_shift_eq_add _ 24 (by omega)]
  simp only [leValue]
  omega

/-- Two 32-bit words joined by a shift are the low word plus the scaled high word. -/
theorem uint64_of_words (low high : UInt32) :
    (low.toUInt64 ||| (high.toUInt64 <<< 32)).toNat = low.toNat + 2 ^ 32 * high.toNat := by
  have hl := low.toNat_lt
  have hh := high.toNat_lt
  have hcount : (32 : UInt64).toNat % 64 = 32 := rfl
  have hshift : (high.toUInt64 <<< 32).toNat = high.toNat <<< 32 := by
    rw [UInt64.toNat_shiftLeft, UInt32.toNat_toUInt64, hcount, Nat.shiftLeft_eq]
    omega
  rw [UInt64.toNat_or, hshift, UInt32.toNat_toUInt64, or_shift_eq_add _ _ (by omega)]
  omega

end WordDecoders

end ByteCodec
