import PqcapReader.FrameLayers
import PqcapReader.PacketTable

/-!
# Printed addresses

An address is four bytes printed as decimal numbers or sixteen bytes printed as
hexadecimal groups. The numbers hold no separator, so the pieces between the separators
give the bytes back, and a full stop tells the two versions apart.
-/

namespace PqcapReader

open ByteCodec

/-- The bytes that `FormatIPv4` or `FormatIPv6` is called on. -/
inductive Address
  | ipv4 (bytes : Bytes) (length_eq : bytes.length = 4)
  | ipv6 (bytes : Bytes) (length_eq : bytes.length = 16)
  deriving DecidableEq, Repr

namespace Address

/-- The address as `FormatIPv4` or `FormatIPv6` prints it. -/
def format : Address → Bytes
  | .ipv4 bytes _ => Id.run (formatIPv4 (PacketAccess.plain bytes) 0)
  | .ipv6 bytes _ => Id.run (formatIPv6 (PacketAccess.plain bytes) 0)

theorem format_ipv4 (bytes : Bytes) (length_eq : bytes.length = 4) :
    (ipv4 bytes length_eq).format = printIPv4 bytes :=
  run_formatIPv4 length_eq (List.take_of_length_le length_eq.le)

theorem format_ipv6 (bytes : Bytes) (length_eq : bytes.length = 16) :
    (ipv6 bytes length_eq).format = printIPv6 bytes :=
  run_formatIPv6 (List.take_of_length_le length_eq.le)

end Address

section Groups

/-- The value of the group at a position of a 16-byte address. -/
def addressGroup (address : Bytes) (i : ℕ) : ℕ :=
  256 * (address.getD (i * 2) 0).toNat + (address.getD (i * 2 + 1) 0).toNat

/-- The eight groups determine the sixteen bytes. -/
theorem eq_of_addressGroups {address address' : Bytes} (hlength : address.length = 16)
    (hlength' : address'.length = 16)
    (h : (List.range 8).map (addressGroup address) = (List.range 8).map (addressGroup address')) :
    address = address' := by
  apply List.ext_getElem (hlength.trans hlength'.symm)
  intro i hi hi'
  have hgroup : addressGroup address (i / 2) = addressGroup address' (i / 2) :=
    List.map_inj_left.mp h (i / 2) (List.mem_range.mpr (by omega))
  have hhigh := (address.getD (i / 2 * 2) 0).toNat_lt
  have hhigh' := (address'.getD (i / 2 * 2) 0).toNat_lt
  have hlow := (address.getD (i / 2 * 2 + 1) 0).toNat_lt
  have hlow' := (address'.getD (i / 2 * 2 + 1) 0).toNat_lt
  rw [← List.getD_eq_getElem address 0 hi, ← List.getD_eq_getElem address' 0 hi']
  apply UInt8.toNat_inj.mp
  unfold addressGroup at hgroup
  rcases Nat.even_or_odd' i with ⟨half, rfl | rfl⟩
  · have hhalf : 2 * half / 2 * 2 = 2 * half := by omega
    rw [hhalf] at hgroup hhigh hhigh' hlow hlow'
    omega
  · have hhalf : (2 * half + 1) / 2 * 2 = 2 * half := by omega
    rw [hhalf] at hgroup hhigh hhigh' hlow hlow'
    omega

end Groups

section Printed

variable {address address' : Bytes}

theorem printIPv4_pieces (hlength : address.length = 4) :
    address.map (fun byte => decimal byte.toNat) ≠ [] ∧
      ∀ piece ∈ address.map (fun byte => decimal byte.toNat), (0x2E : UInt8) ∉ piece := by
  constructor
  · intro hnil
    rw [List.map_eq_nil_iff.mp hnil] at hlength
    cases hlength
  · intro piece hpiece hmem
    obtain ⟨byte, -, rfl⟩ := List.mem_map.mp hpiece
    have hdigit := decimal_isDigit byte.toNat _ hmem
    revert hdigit
    decide

theorem printIPv6_pieces (address : Bytes) {sep : UInt8}
    (hsep : ∀ digit < 16, digitByte digit ≠ sep) :
    ∀ piece ∈ (List.range 8).map (fun i => hexadecimal (addressGroup address i)), sep ∉ piece := by
  intro piece hpiece
  obtain ⟨i, -, rfl⟩ := List.mem_map.mp hpiece
  exact not_mem_hexadecimal hsep _

/-- Four bytes are recovered from their numbers. -/
theorem printIPv4_injOn (hlength : address.length = 4) (hlength' : address'.length = 4)
    (h : printIPv4 address = printIPv4 address') : address = address' := by
  obtain ⟨hpieces, hfree⟩ := printIPv4_pieces hlength
  obtain ⟨hpieces', hfree'⟩ := printIPv4_pieces hlength'
  have hnumbers := intercalate_injOn hpieces hpieces' hfree hfree' h
  refine List.map_injective_iff.mpr (fun byte byte' hbyte => ?_) hnumbers
  exact UInt8.toNat_inj.mp (decimal_injective hbyte)

/-- Sixteen bytes are recovered from their groups. -/
theorem printIPv6_injOn (hlength : address.length = 16) (hlength' : address'.length = 16)
    (h : printIPv6 address = printIPv6 address') : address = address' := by
  have hgroups (groups : ℕ → Bytes) : (List.range 8).map groups ≠ [] :=
    mt List.map_eq_nil_iff.mp (by decide)
  have hnumbers := intercalate_injOn (hgroups _) (hgroups _)
    (printIPv6_pieces address (by decide)) (printIPv6_pieces address' (by decide)) h
  apply eq_of_addressGroups hlength hlength'
  refine List.map_injective_iff.mpr hexadecimal_injective ?_
  rw [List.map_map, List.map_map]
  exact hnumbers

/-- No group of an IPv6 address holds a full stop, and an IPv4 address has four pieces. -/
theorem printIPv4_ne_printIPv6 (hlength : address.length = 4) (address' : Bytes) :
    printIPv4 address ≠ printIPv6 address' := by
  intro h
  obtain ⟨hpieces, hfree⟩ := printIPv4_pieces hlength
  have hnodot : (0x2E : UInt8) ∉ printIPv6 address' := by
    intro hmem
    rcases mem_intercalate hmem with hsep | ⟨piece, hpiece, hc⟩
    · revert hsep
      decide
    · exact printIPv6_pieces address' (by decide) piece hpiece hc
  have hsingle : printIPv4 address = [(0x2E : UInt8)].intercalate [printIPv6 address'] := by
    rw [List.intercalate_singleton, h]
  have hone := intercalate_injOn hpieces (List.cons_ne_nil _ _) hfree
    (by simpa using hnodot) hsingle
  have hcount := congrArg List.length hone
  rw [List.length_map, hlength, List.length_singleton] at hcount
  contradiction

theorem printIPv4_ne_nil (hlength : address.length = 4) : printIPv4 address ≠ [] := by
  cases address with
  | nil => cases hlength
  | cons byte rest => exact intercalate_ne_nil (decimal_ne_nil _)

theorem printIPv6_ne_nil (address : Bytes) : printIPv6 address ≠ [] :=
  intercalate_ne_nil (by simpa [hexadecimal] using numeral_ne_nil 16 _)

end Printed

/-- Two addresses are printed alike only if they are the same address of the same version, no
printed address is empty, and so the cells of two addresses are never NULL and equal only for one
address. -/
theorem format_identifies_address :
    (∀ address address' : Address, address.format = address'.format → address = address') ∧
      (∀ address : Address, address.format ≠ []) ∧
        (∀ address : Address, varcharOrNull address.format = .varchar address.format) ∧
          ∀ address address' : Address,
            varcharOrNull address.format = varcharOrNull address'.format → address = address' := by
  have hinjective : ∀ address address' : Address,
      address.format = address'.format → address = address' := by
    intro address address' h
    cases address with
    | ipv4 bytes length_eq =>
      cases address' with
      | ipv4 bytes' length_eq' =>
        rw [Address.format_ipv4, Address.format_ipv4] at h
        rw [Address.ipv4.injEq]
        exact printIPv4_injOn length_eq length_eq' h
      | ipv6 bytes' length_eq' =>
        rw [Address.format_ipv4, Address.format_ipv6] at h
        exact absurd h (printIPv4_ne_printIPv6 length_eq bytes')
    | ipv6 bytes length_eq =>
      cases address' with
      | ipv4 bytes' length_eq' =>
        rw [Address.format_ipv4, Address.format_ipv6] at h
        exact absurd h.symm (printIPv4_ne_printIPv6 length_eq' bytes)
      | ipv6 bytes' length_eq' =>
        rw [Address.format_ipv6, Address.format_ipv6] at h
        rw [Address.ipv6.injEq]
        exact printIPv6_injOn length_eq length_eq' h
  have hnonempty : ∀ address : Address, address.format ≠ [] := by
    intro address
    cases address with
    | ipv4 bytes length_eq =>
      rw [Address.format_ipv4]
      exact printIPv4_ne_nil length_eq
    | ipv6 bytes length_eq =>
      rw [Address.format_ipv6]
      exact printIPv6_ne_nil bytes
  have hcell : ∀ address : Address, varcharOrNull address.format = .varchar address.format := by
    intro address
    rw [varcharOrNull, List.isEmpty_eq_false_iff.mpr (hnonempty address), if_neg Bool.false_ne_true]
  refine ⟨hinjective, hnonempty, hcell, ?_⟩
  intro address address' h
  rw [hcell, hcell, Value.varchar.injEq] at h
  exact hinjective address address' h

end PqcapReader
