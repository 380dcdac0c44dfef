import PqcapReader.Storage
import PqcapReader.Footer
import PqcapReader.BlockScan

/-!
# The bundle

`EmbedParquetInPqcap` appends two blocks to a capture: a custom block that carries the
Parquet file behind a 25-byte header, and a footer block that records where the Parquet
file begins and how long it is. The encoder is modelled with the masks and shifts of the
source; the layout lemmas then give the bundle as a concatenation of fields.
-/

namespace PqcapReader

open ByteCodec Effects

def pqcapCustomBlockType : UInt32 := 0x00000BAD
def pqcapFooterBlockType : UInt32 := 0x00000BEE
def pqcapEnterpriseId : UInt32 := 0x51584950
def pqcapMagic : Bytes := ascii "PQCAPMETA"
def pqcapFooterMagic : Bytes := ascii "PQCAPFTR"

def writeLE16 (buf : Bytes) (v : UInt16) : Bytes :=
  buf ++ [(v &&& 0xff).toUInt8, ((v >>> 8) &&& 0xff).toUInt8]

def writeLE32 (buf : Bytes) (v : UInt32) : Bytes :=
  buf ++ [(v &&& 0xff).toUInt8, ((v >>> 8) &&& 0xff).toUInt8, ((v >>> 16) &&& 0xff).toUInt8,
    ((v >>> 24) &&& 0xff).toUInt8]

/-- `WriteLE64`: its loop pushes byte `i` for `i` below eight. -/
def writeLE64 (buf : Bytes) (v : UInt64) : Bytes :=
  buf ++ (List.range 8).map fun i => ((v >>> UInt64.ofNat (i * 8)) &&& 0xff).toUInt8

/-- The loop that pushes zeros until the size is a multiple of four, bounded by `fuel`. -/
def padBody : ℕ → Bytes → Bytes
  | 0, body => body
  | fuel + 1, body => if body.length % 4 ≠ 0 then padBody fuel (body ++ [0]) else body

/-- The body of the custom block: a header of 25 bytes, the Parquet file, and the filling. -/
def customBody (parquet : Bytes) : Bytes :=
  let body := writeLE32 [] pqcapEnterpriseId
  let body := body ++ pqcapMagic.take 9
  let body := writeLE16 body 1
  let body := writeLE16 body 0
  let body := writeLE64 body (UInt64.ofNat parquet.length)
  padBody 4 (body ++ parquet)

/-- The custom block; its length is cut to 32 bits. -/
def customBlock (parquet : Bytes) : Bytes :=
  let body := customBody parquet
  let customLen := UInt32.ofNat (12 + body.length)
  let block := writeLE32 [] pqcapCustomBlockType
  let block := writeLE32 block customLen
  let block := block ++ body
  writeLE32 block customLen

/-- The footer block for a capture and a Parquet file of the given sizes. -/
def footerBlock (captureSize parquetSize : ℕ) : Bytes :=
  let parquetAbsOffset := UInt64.ofNat captureSize + 8 + 25
  let body := writeLE32 [] pqcapEnterpriseId
  let body := body ++ pqcapFooterMagic.take 8
  let body := writeLE16 body 1
  let body := writeLE16 body 0
  let body := writeLE64 body parquetAbsOffset
  let body := writeLE64 body (UInt64.ofNat parquetSize)
  let footerLen := UInt32.ofNat (12 + body.length)
  let block := writeLE32 [] pqcapFooterBlockType
  let block := writeLE32 block footerLen
  let block := block ++ body
  writeLE32 block footerLen

/-- The bytes that `EmbedParquetInPqcap` writes. -/
def pqcapBundle (capture parquet : Bytes) : Bytes :=
  capture ++ customBlock parquet ++ footerBlock capture.length parquet.length

def embedParquetInPqcap (faults : Schedule) (pcapPath parquetPath : Bytes) : Action Unit := do
  let capture ← readFileBytes faults pcapPath
  let parquet ← readFileBytes faults parquetPath
  writeFileBytes faults pcapPath (pqcapBundle capture parquet)

/-- Without faults the capture's file is replaced by the bundle. -/
theorem exec_embedParquetInPqcap {faults : Schedule} (hfaults : NoFaults faults)
    {pcapPath parquetPath capture parquet : Bytes} {world : World}
    (hcapture : world.files pcapPath = some capture)
    (hparquet : world.files parquetPath = some parquet) :
    ∃ clock, exec (embedParquetInPqcap faults pcapPath parquetPath) world =
      (.ok (), ⟨Function.update world.files pcapPath (some (pqcapBundle capture parquet)),
        clock⟩) := by
  obtain ⟨first, hfirst⟩ := exec_readFileBytes hfaults hcapture
  have hparquet' : (⟨world.files, first⟩ : World).files parquetPath = some parquet := hparquet
  obtain ⟨second, hsecond⟩ := exec_readFileBytes hfaults hparquet'
  rw [embedParquetInPqcap, exec_bind_ok _ hfirst, exec_bind_ok _ hsecond]
  exact exec_writeFileBytes hfaults _ _ _

section Layout

theorem writeLE16_eq (buf : Bytes) (v : UInt16) : writeLE16 buf v = buf ++ leBytes 2 v.toNat := by
  rw [writeLE16, leBytes_uint16]

theorem writeLE32_eq (buf : Bytes) (v : UInt32) : writeLE32 buf v = buf ++ leBytes 4 v.toNat := by
  rw [writeLE32, leBytes_uint32]

theorem writeLE64_eq (buf : Bytes) (v : UInt64) : writeLE64 buf v = buf ++ leBytes 8 v.toNat := by
  rw [writeLE64, leBytes_uint64]

/-- The number of zeros that fill a size up to a multiple of four. -/
def padCount (size : ℕ) : ℕ := (4 - size % 4) % 4

/-- Enough iterations fill the body up to a multiple of four. -/
theorem padBody_eq {fuel : ℕ} {body : Bytes} (hfuel : padCount body.length ≤ fuel) :
    padBody fuel body = body ++ List.replicate (padCount body.length) 0 := by
  induction fuel generalizing body with
  | zero =>
    rw [Nat.le_zero.mp hfuel, padBody, List.replicate_zero, List.append_nil]
  | succ fuel ih =>
    by_cases haligned : body.length % 4 = 0
    · have hnone : padCount body.length = 0 := by
        rw [padCount, haligned]
      rw [padBody, if_neg (not_not.mpr haligned), hnone, List.replicate_zero, List.append_nil]
    · have hcount : padCount body.length = padCount (body ++ [0]).length + 1 := by
        simp only [padCount, List.length_append, List.length_singleton]
        omega
      rw [padBody, if_pos haligned, ih (by omega), hcount, List.replicate_succ, List.append_assoc]
      rfl

/-- The 25 bytes of the custom block's body that precede the Parquet file. -/
def customHeader (parquetSize : ℕ) : Bytes :=
  leBytes 4 0x51584950 ++ pqcapMagic ++ leBytes 2 1 ++ leBytes 2 0 ++
    leBytes 8 (parquetSize % 2 ^ 64)

theorem customHeader_length (parquetSize : ℕ) : (customHeader parquetSize).length = 25 := by
  simp only [customHeader, List.length_append, leBytes_length]
  rfl

/-- The custom block's body, field by field. -/
theorem customBody_eq (parquet : Bytes) :
    customBody parquet = customHeader parquet.length ++ parquet ++
      List.replicate (padCount (25 + parquet.length)) 0 := by
  have hheader : customHeader parquet.length = writeLE64 (writeLE16 (writeLE16
      (writeLE32 [] pqcapEnterpriseId ++ pqcapMagic.take 9) 1) 0)
        (UInt64.ofNat parquet.length) := by
    rw [writeLE64_eq, writeLE16_eq, writeLE16_eq, writeLE32_eq, UInt64.toNat_ofNat']
    rfl
  have hlength : (customHeader parquet.length ++ parquet).length = 25 + parquet.length := by
    rw [List.length_append, customHeader_length]
  rw [customBody, ← hheader, padBody_eq (by rw [padCount]; omega), hlength]

theorem customBody_length (parquet : Bytes) :
    (customBody parquet).length = 25 + parquet.length + padCount (25 + parquet.length) := by
  rw [customBody_eq, List.length_append, List.length_append, customHeader_length,
    List.length_replicate]

/-- The length that the custom block records. -/
def customLen (parquet : Bytes) : ℕ := (12 + (customBody parquet).length) % 2 ^ 32

/-- The custom block, field by field. -/
theorem customBlock_eq (parquet : Bytes) :
    customBlock parquet = leBytes 4 0x00000BAD ++ leBytes 4 (customLen parquet) ++
      customBody parquet ++ leBytes 4 (customLen parquet) := by
  rw [customBlock, writeLE32_eq, writeLE32_eq, writeLE32_eq, UInt32.toNat_ofNat']
  rfl

theorem customBlock_length (parquet : Bytes) :
    (customBlock parquet).length = 12 + (customBody parquet).length := by
  simp only [customBlock_eq, List.length_append, leBytes_length]
  omega

/-- The footer block, field by field. -/
theorem footerBlock_eq (captureSize parquetSize : ℕ) (hoffset : captureSize + 33 < 2 ^ 64)
    (hlength : parquetSize < 2 ^ 64) :
    footerBlock captureSize parquetSize =
      (footerFields 1 0 (captureSize + 33) parquetSize).flatten := by
  have habs : (UInt64.ofNat captureSize + 8 + 25).toNat = captureSize + 33 := by
    have hsize : (UInt64.ofNat captureSize).toNat = captureSize := uint64_ofNat_toNat (by omega)
    have h8 : (8 : UInt64).toNat = 8 := rfl
    have h25 : (25 : UInt64).toNat = 25 := rfl
    rw [UInt64.toNat_add, UInt64.toNat_add, hsize, h8, h25]
    omega
  simp only [footerBlock, writeLE64_eq, writeLE16_eq, writeLE32_eq, habs,
    uint64_ofNat_toNat hlength, List.length_append, leBytes_length]
  simp only [footerFields, List.flatten_cons, List.flatten_nil, List.append_assoc,
    List.nil_append, List.append_nil]
  rfl

theorem footerBlock_length (captureSize parquetSize : ℕ) :
    (footerBlock captureSize parquetSize).length = 44 := by
  simp only [footerBlock, writeLE64_eq, writeLE16_eq, writeLE32_eq, List.length_append,
    leBytes_length]
  rfl

theorem pqcapBundle_length (capture parquet : Bytes) :
    (pqcapBundle capture parquet).length =
      capture.length + 33 + parquet.length + padCount (25 + parquet.length) + 48 := by
  rw [pqcapBundle, List.length_append, List.length_append, customBlock_length, customBody_length,
    footerBlock_length]
  omega

/-- The Parquet file lies in the bundle 33 bytes past the capture. -/
theorem slice_parquet (capture parquet : Bytes) :
    slice (pqcapBundle capture parquet) (capture.length + 33) parquet.length = parquet := by
  have hfront : (leBytes 4 0x00000BAD ++ leBytes 4 (customLen parquet) ++
      customHeader parquet.length).length = 33 := by
    simp only [List.length_append, leBytes_length, customHeader_length]
  rw [pqcapBundle, customBlock_eq, customBody_eq, List.append_assoc, slice_append_right]
  simp only [List.append_assoc] at hfront ⊢
  rw [← List.append_assoc, ← List.append_assoc, List.append_assoc (leBytes 4 _)]
  exact slice_field _ hfront rfl

/-- The footer block is the end of the bundle. -/
theorem slice_footerBlock (capture parquet : Bytes) :
    slice (pqcapBundle capture parquet) ((pqcapBundle capture parquet).length - 44) 44 =
      footerBlock capture.length parquet.length := by
  have hlength := footerBlock_length capture.length parquet.length
  have hend : (pqcapBundle capture parquet).length - 44 =
      (capture ++ customBlock parquet).length := by
    rw [pqcapBundle, List.length_append, hlength, Nat.add_sub_cancel]
  rw [hend, pqcapBundle, ← List.append_nil (footerBlock _ _)]
  exact slice_field [] rfl hlength

end Layout

end PqcapReader
