import PqcapReader.Host
import PqcapReader.Library.Effects
import PqcapReader.Library.Numeral

/-!
# The footer locator

The last 44 bytes of a bundle are a footer block that records where the embedded Parquet
file lies. `ParseFooterLocator` decodes those bytes at fixed offsets, and
`ParsePqcapMetadataLocation` checks the result against the file's size and prints it.
-/

namespace PqcapReader

open ByteCodec Effects

@[ext]
structure FooterLocator where
  parquetOffset : UInt64
  parquetLength : UInt64
  deriving DecidableEq, Repr

def footerBlockType : UInt32 := 0x00000BEE
def footerBlockSize : UInt32 := 44
def enterpriseId : UInt32 := 0x51584950

/-- `FOOTER_MAGIC`: `PQCAPFTR`. -/
def footerMagic : Bytes := [0x50, 0x51, 0x43, 0x41, 0x50, 0x46, 0x54, 0x52]

/-- `ReadU16LE`, with the second byte shifted as an `int`. -/
def readU16LE (p : Bytes) : UInt16 :=
  (p.getD 0 0).toUInt16 ||| (promote (p.getD 1 0) <<< 8).toUInt32.toUInt16

/-- `ReadU32LE`, with the upper bytes shifted as `int`s. -/
def readU32LE (p : Bytes) : UInt32 :=
  (p.getD 0 0).toUInt32 ||| (promote (p.getD 1 0) <<< 8).toUInt32 |||
    (promote (p.getD 2 0) <<< 16).toUInt32 ||| (promote (p.getD 3 0) <<< 24).toUInt32

def readU64LE (p : Bytes) : UInt64 :=
  (readU32LE p).toUInt64 ||| ((readU32LE (p.drop 4)).toUInt64 <<< 32)

/-- `ParseFooterLocator`; `none` is the result `false`. -/
def parseFooterLocator (bytes : Bytes) : Option FooterLocator :=
  if bytes.length ≠ footerBlockSize.toNat then
    none
  else
    let blockType := readU32LE bytes
    let blockLen := readU32LE (bytes.drop 4)
    let tailLen := readU32LE (bytes.drop (footerBlockSize.toNat - 4))
    if blockType ≠ footerBlockType ∨ blockLen ≠ footerBlockSize ∨ tailLen ≠ footerBlockSize then
      none
    else if readU32LE (bytes.drop 8) ≠ enterpriseId then
      none
    else if (bytes.drop 12).take 8 ≠ footerMagic then
      none
    else if readU16LE (bytes.drop 20) > 1 then
      none
    else
      some ⟨readU64LE (bytes.drop 24), readU64LE (bytes.drop 32)⟩

/-- `PQCAP_FOOTER_BLOCK_SIZE`, as an `idx_t`. -/
def pqcapFooterBlockSize : UInt64 := 44

/-- `ParsePqcapMetadataLocation`: the printed offset and length of the embedded file. -/
def parsePqcapMetadataLocation (handle : FileHandle) (source : Bytes) :
    Except Exception Bytes :=
  let fileSize := handle.getFileSize.toUInt64
  if fileSize < pqcapFooterBlockSize then
    .error (.invalidInputException (ascii "pqcap file too small: " ++ source))
  else do
    let tail ← handle.read pqcapFooterBlockSize.toInt64 (fileSize - pqcapFooterBlockSize)
    match parseFooterLocator tail with
    | none => .error (.invalidInputException (ascii "invalid pqcap footer locator: " ++ source))
    | some loc =>
      if loc.parquetLength = 0 then
        .error (.invalidInputException
          (ascii "pqcap embedded metadata length is zero: " ++ source))
      else if loc.parquetOffset + loc.parquetLength < loc.parquetOffset ∨
          loc.parquetOffset + loc.parquetLength > fileSize then
        .error (.invalidInputException
          (ascii "pqcap footer offset/length out of range: " ++ source))
      else
        .ok (decimal loc.parquetOffset.toNat ++ ascii "_" ++ decimal loc.parquetLength.toNat)

/-- `StringScalarLoop`: a text function on every row of a chunk, where NULL is an error. -/
def stringScalarLoop {A : Type} (fn : Bytes) (body : Bytes → Except Exception A)
    (args : List (Option Bytes)) : Except Exception (List A) :=
  args.mapM fun
    | none => .error (.invalidInputException (fn ++ ascii ": path argument is NULL"))
    | some path => body path

/-- What `PqcapOffsetSizeFunction` computes for one path. -/
def pqcapOffsetSize (fs : VirtualFileSystem) (path : Bytes) : Except Exception Bytes := do
  match ← fs path fileFlagsRead with
  | none => .error (.ioException (ascii "pqcap_offset_size: could not open " ++ path))
  | some handle => parsePqcapMetadataLocation handle path

def pqcapOffsetSizeFunction (fs : VirtualFileSystem) (args : List (Option Bytes)) :
    Except Exception (List Bytes) :=
  stringScalarLoop (ascii "pqcap_offset_size") (pqcapOffsetSize fs) args

/-- A chunk of paths becomes the chunk of their locations when none is NULL and each has one. -/
theorem pqcapOffsetSizeFunction_eq_ok_iff {fs : VirtualFileSystem} {args : List (Option Bytes)}
    {locations : List Bytes} :
    pqcapOffsetSizeFunction fs args = .ok locations ↔
      List.Forall₂ (fun arg location => ∃ path, arg = some path ∧
        pqcapOffsetSize fs path = .ok location) args locations := by
  rw [pqcapOffsetSizeFunction, stringScalarLoop, except_mapM_eq_ok]
  constructor
  · refine List.Forall₂.imp fun arg location h => ?_
    cases arg with
    | none => cases h
    | some path => exact ⟨path, rfl, h⟩
  · refine List.Forall₂.imp fun arg location h => ?_
    obtain ⟨path, rfl, hlocation⟩ := h
    exact hlocation

/-- A two-byte field decodes to its little-endian value. -/
theorem toNat_readU16LE (bytes : Bytes) (pos : ℕ) (h : pos + 2 ≤ bytes.length) :
    (readU16LE (bytes.drop pos)).toNat = leValue (slice bytes pos 2) := by
  have hget (i : ℕ) : (bytes.drop pos).getD i 0 = bytes.getD (pos + i) 0 := by
    rw [List.getD_eq_getElem?_getD, List.getElem?_drop, ← List.getD_eq_getElem?_getD]
  have hcount : (8 : UInt32).toNat % 32 = 8 := rfl
  have hcount' : (8 : UInt16).toNat % 16 = 8 := rfl
  have hshift (byte : UInt8) :
      (promote byte <<< 8).toUInt32.toUInt16 = byte.toUInt16 <<< 8 := by
    have hb := byte.toNat_lt
    apply UInt16.toNat_inj.mp
    rw [(promote_shiftLeft byte).1, UInt32.toNat_toUInt16, UInt32.toNat_shiftLeft,
      UInt16.toNat_shiftLeft, UInt8.toNat_toUInt32, UInt8.toNat_toUInt16, hcount, hcount',
      Nat.shiftLeft_eq]
    omega
  rw [slice_two bytes pos h]
  simp only [readU16LE, hget, hshift]
  exact uint16_of_bytes _ _

/-- A four-byte field decodes to its little-endian value. -/
theorem toNat_readU32LE (bytes : Bytes) (pos : ℕ) (h : pos + 4 ≤ bytes.length) :
    (readU32LE (bytes.drop pos)).toNat = leValue (slice bytes pos 4) := by
  have hget (i : ℕ) : (bytes.drop pos).getD i 0 = bytes.getD (pos + i) 0 := by
    rw [List.getD_eq_getElem?_getD, List.getElem?_drop, ← List.getD_eq_getElem?_getD]
  rw [slice_four bytes pos h]
  simp only [readU32LE, hget, (promote_shiftLeft _).1, (promote_shiftLeft _).2.1,
    (promote_shiftLeft _).2.2]
  exact uint32_of_bytes _ _ _ _

/-- An eight-byte field decodes to its little-endian value. -/
theorem toNat_readU64LE (bytes : Bytes) (pos : ℕ) (h : pos + 8 ≤ bytes.length) :
    (readU64LE (bytes.drop pos)).toNat = leValue (slice bytes pos 8) := by
  have hlow := slice_length bytes pos 4 (by omega)
  rw [readU64LE, uint64_of_words, List.drop_drop, toNat_readU32LE bytes pos (by omega),
    toNat_readU32LE bytes (pos + 4) (by omega), ← slice_add bytes pos 4 4, leValue_append, hlow]
  norm_num

/-- A four-byte field equals a constant exactly when its value does. -/
private theorem readU32LE_eq_iff (bytes : Bytes) (pos n : ℕ) (h : pos + 4 ≤ bytes.length)
    (hn : n < 2 ^ 32) :
    readU32LE (bytes.drop pos) = UInt32.ofNat n ↔ leValue (slice bytes pos 4) = n := by
  rw [← toNat_readU32LE bytes pos h, ← UInt32.toNat_inj, UInt32.toNat_ofNat', Nat.mod_eq_of_lt hn]

/-- What `ParseFooterLocator` accepts and returns, field by field. -/
theorem parseFooterLocator_eq_some_iff (bytes : Bytes) (loc : FooterLocator) :
    parseFooterLocator bytes = some loc ↔
      bytes.length = 44 ∧ leValue (slice bytes 0 4) = 0x00000BEE ∧ leValue (slice bytes 4 4) = 44 ∧
        leValue (slice bytes 40 4) = 44 ∧ leValue (slice bytes 8 4) = 0x51584950 ∧
          slice bytes 12 8 = footerMagic ∧ leValue (slice bytes 20 2) ≤ 1 ∧
            leValue (slice bytes 24 8) = loc.parquetOffset.toNat ∧
              leValue (slice bytes 32 8) = loc.parquetLength.toNat := by
  by_cases hlength : bytes.length = 44
  · have htype := readU32LE_eq_iff bytes 0 0x00000BEE (by omega) (by decide)
    have hlen := readU32LE_eq_iff bytes 4 44 (by omega) (by decide)
    have htail := readU32LE_eq_iff bytes 40 44 (by omega) (by decide)
    have hid := readU32LE_eq_iff bytes 8 0x51584950 (by omega) (by decide)
    have hversion : readU16LE (bytes.drop 20) > 1 ↔ ¬ leValue (slice bytes 20 2) ≤ 1 := by
      rw [← toNat_readU16LE bytes 20 (by omega), not_le]
      exact UInt16.lt_iff_toNat_lt
    have hlocated (offset length : UInt64) : some (FooterLocator.mk offset length) = some loc ↔
        offset.toNat = loc.parquetOffset.toNat ∧ length.toNat = loc.parquetLength.toNat := by
      rw [UInt64.toNat_inj, UInt64.toNat_inj, Option.some.injEq, FooterLocator.ext_iff]
    rw [← htype, ← hlen, ← htail, ← hid, ← toNat_readU64LE bytes 24 (by omega),
      ← toNat_readU64LE bytes 32 (by omega), ← hlocated, List.drop_zero]
    have hsize : footerBlockSize.toNat = 44 := rfl
    simp only [parseFooterLocator, hsize, Option.ite_none_left_eq_some, hversion, not_or, not_not,
      ne_eq, hlength, true_and, and_assoc]
    rfl
  · simp [parseFooterLocator, footerBlockSize, hlength]

/-- The content ends with 44 bytes that `ParseFooterLocator` accepts. -/
def endsWithFooter (content : Bytes) : Bool :=
  decide (44 ≤ content.length) &&
    (parseFooterLocator (slice content (content.length - 44) 44)).isSome

/-- A handle compares its file's size with the footer's, and delivers the last 44 bytes. -/
theorem FileHandle.Holds.read_tail {handle : FileHandle} {content : Bytes}
    (hholds : handle.Holds content) :
    (handle.getFileSize.toUInt64 < pqcapFooterBlockSize ↔ content.length < 44) ∧
      (44 ≤ content.length →
        handle.read pqcapFooterBlockSize.toInt64
            (handle.getFileSize.toUInt64 - pqcapFooterBlockSize) =
          .ok (slice content (content.length - 44) 44)) := by
  obtain ⟨hsize, -⟩ := hholds.toNat_size
  have hconst : pqcapFooterBlockSize.toNat = 44 := rfl
  have hrequest : pqcapFooterBlockSize.toInt64.toInt = 44 := rfl
  constructor
  · rw [UInt64.lt_iff_toNat_lt]
    omega
  · intro hlong
    have hlocation : (handle.getFileSize.toUInt64 - pqcapFooterBlockSize).toNat =
        content.length - 44 := by
      rw [UInt64.toNat_sub_of_le _ _ (UInt64.le_iff_toNat_le.mpr (by omega))]
      omega
    have hread := hholds.read pqcapFooterBlockSize.toInt64
      (handle.getFileSize.toUInt64 - pqcapFooterBlockSize) (by omega) (by omega)
    rw [hlocation, hrequest] at hread
    exact hread

/-- The located file is not empty and lies inside a file of the given size. -/
def FooterLocator.Inside (loc : FooterLocator) (size : ℕ) : Prop :=
  0 < loc.parquetLength.toNat ∧ loc.parquetOffset.toNat + loc.parquetLength.toNat ≤ size

/-- The location as it is printed. -/
def FooterLocator.printed (loc : FooterLocator) : Bytes :=
  decimal loc.parquetOffset.toNat ++ ascii "_" ++ decimal loc.parquetLength.toNat

/-- The checks on 64-bit numbers, the one on the wrapped sum included, are those on the numbers. -/
theorem FooterLocator.inside_iff (loc : FooterLocator) (fileSize : UInt64)
    (hsize : fileSize.toNat < 2 ^ 63) :
    loc.Inside fileSize.toNat ↔ loc.parquetLength ≠ 0 ∧
      ¬ (loc.parquetOffset + loc.parquetLength < loc.parquetOffset ∨
        loc.parquetOffset + loc.parquetLength > fileSize) := by
  have hoffset := loc.parquetOffset.toNat_lt
  have hlength := loc.parquetLength.toNat_lt
  have hzero : loc.parquetLength ≠ 0 ↔ loc.parquetLength.toNat ≠ 0 :=
    not_congr UInt64.toNat_inj.symm
  rw [FooterLocator.Inside, hzero, gt_iff_lt, UInt64.lt_iff_toNat_lt, UInt64.lt_iff_toNat_lt,
    UInt64.toNat_add]
  omega

/-- `ParsePqcapMetadataLocation` returns the location of a footer at the end of the file, if that
location is inside the file. -/
theorem parsePqcapMetadataLocation_eq_ok_iff {handle : FileHandle} {content : Bytes}
    (hholds : handle.Holds content) {source location : Bytes} :
    parsePqcapMetadataLocation handle source = .ok location ↔
      44 ≤ content.length ∧ ∃ loc : FooterLocator,
        parseFooterLocator (slice content (content.length - 44) 44) = some loc ∧
          loc.Inside content.length ∧ location = loc.printed := by
  obtain ⟨hlength, hfits⟩ := hholds.toNat_size
  obtain ⟨hsmall, htail⟩ := hholds.read_tail
  rw [parsePqcapMetadataLocation]
  by_cases hlong : 44 ≤ content.length
  · simp only [if_neg (mt hsmall.mp (not_lt.mpr hlong)), htail hlong, bind, Except.bind, hlong,
      true_and]
    cases hparse : parseFooterLocator (slice content (content.length - 44) 44) with
    | none => simp
    | some loc =>
      have hinside := loc.inside_iff handle.getFileSize.toUInt64 (by omega)
      rw [hlength] at hinside
      simp only [Option.some.injEq, exists_eq_left', hinside, FooterLocator.printed]
      split_ifs with hzero hrange
      · simp [hzero]
      · simp [hrange]
      · simp only [ne_eq, hzero, hrange, not_false_eq_true, and_self, true_and, Except.ok.injEq]
        exact eq_comm
  · simp [if_pos (hsmall.mpr (not_le.mp hlong)), hlong]

/-- A file in which the location of an embedded file can be parsed ends with a footer. -/
theorem endsWithFooter_of_location {handle : FileHandle} {content source location : Bytes}
    (hholds : handle.Holds content)
    (h : parsePqcapMetadataLocation handle source = .ok location) :
    endsWithFooter content = true := by
  obtain ⟨hlong, loc, hparse, -, -⟩ := (parsePqcapMetadataLocation_eq_ok_iff hholds).mp h
  rw [endsWithFooter, decide_eq_true hlong, hparse]
  rfl

/-- The fields of a footer block, in order. -/
def footerFields (version flags offset length : ℕ) : List Bytes :=
  [leBytes 4 0x00000BEE, leBytes 4 44, leBytes 4 0x51584950, footerMagic, leBytes 2 version,
    leBytes 2 flags, leBytes 8 offset, leBytes 8 length, leBytes 4 44]

/-- A footer block decodes to the location it records. -/
theorem parseFooterLocator_footerFields (version flags offset length : ℕ) (hversion : version ≤ 1)
    (hoffset : offset < 2 ^ 64) (hlength : length < 2 ^ 64) :
    parseFooterLocator (footerFields version flags offset length).flatten =
      some ⟨UInt64.ofNat offset, UInt64.ofNat length⟩ := by
  have hfield : ∀ (i start size : ℕ) (field : Bytes),
      (footerFields version flags offset length)[i]? = some field →
        (((footerFields version flags offset length).take i).map List.length).sum = start →
          field.length = size →
            slice (footerFields version flags offset length).flatten start size = field :=
    fun _ _ _ _ h hstart hsize => slice_flatten h hstart hsize
  rw [parseFooterLocator_eq_some_iff,
    hfield 0 0 4 _ rfl rfl rfl, hfield 1 4 4 _ rfl rfl rfl, hfield 8 40 4 _ rfl rfl rfl,
    hfield 2 8 4 _ rfl rfl rfl, hfield 3 12 8 _ rfl rfl rfl, hfield 4 20 2 _ rfl rfl rfl,
    hfield 6 24 8 _ rfl rfl rfl, hfield 7 32 8 _ rfl rfl rfl,
    leValue_leBytes_of_lt (by omega : version < 256 ^ 2),
    leValue_leBytes_of_lt (by norm_num; omega : offset < 256 ^ 8),
    leValue_leBytes_of_lt (by norm_num; omega : length < 256 ^ 8),
    uint64_ofNat_toNat hoffset, uint64_ofNat_toNat hlength]
  exact ⟨rfl, rfl, rfl, rfl, rfl, rfl, hversion, rfl, rfl⟩

/-- The bytes that `ParseFooterLocator` accepts are the footer blocks of the two versions. -/
theorem parseFooterLocator_eq_some_iff_fields (bytes : Bytes) (loc : FooterLocator) :
    parseFooterLocator bytes = some loc ↔
      ∃ version flags : ℕ, version ≤ 1 ∧ flags < 2 ^ 16 ∧
        bytes = (footerFields version flags loc.parquetOffset.toNat
          loc.parquetLength.toNat).flatten := by
  constructor
  · intro h
    obtain ⟨hsize, htype, hlen, htail, hid, hmagic, hversion, hoffset, hlength⟩ :=
      (parseFooterLocator_eq_some_iff bytes loc).mp h
    have hfield (pos size : ℕ) (hinside : pos + size ≤ 44) :
        slice bytes pos size = leBytes size (leValue (slice bytes pos size)) := by
      have hencode := leBytes_leValue (slice bytes pos size)
      rw [slice_length bytes pos size (by omega)] at hencode
      exact hencode.symm
    have hflags : leValue (slice bytes 22 2) < 2 ^ 16 := by
      have hlt := leValue_lt (slice bytes 22 2)
      rw [slice_length bytes 22 2 (by omega)] at hlt
      exact hlt
    have hjoin (pos left right : ℕ) {next : ℕ} (hnext : pos + left = next) :
        slice bytes pos left ++ slice bytes next right = slice bytes pos (left + right) :=
      hnext ▸ slice_add bytes pos left right
    have hwhole : slice bytes 0 4 ++ (slice bytes 4 4 ++ (slice bytes 8 4 ++ (slice bytes 12 8 ++
        (slice bytes 20 2 ++ (slice bytes 22 2 ++ (slice bytes 24 8 ++ (slice bytes 32 8 ++
          slice bytes 40 4))))))) = bytes := by
      rw [hjoin 32 8 4 rfl, hjoin 24 8 _ rfl, hjoin 22 2 _ rfl, hjoin 20 2 _ rfl, hjoin 12 8 _ rfl,
        hjoin 8 4 _ rfl, hjoin 4 4 _ rfl, hjoin 0 4 _ rfl]
      exact List.take_of_length_le hsize.le
    refine ⟨leValue (slice bytes 20 2), leValue (slice bytes 22 2), hversion, hflags, ?_⟩
    rw [footerFields, ← hoffset, ← hlength, ← hmagic, ← hfield 20 2 (by omega),
      ← hfield 22 2 (by omega), ← hfield 24 8 (by omega), ← hfield 32 8 (by omega)]
    nth_rewrite 1 [← hwhole]
    rw [hfield 0 4 (by omega), htype, hfield 4 4 (by omega), hlen, hfield 8 4 (by omega), hid,
      hfield 40 4 (by omega), htail]
    simp only [List.flatten_cons, List.flatten_nil, List.append_nil]
  · rintro ⟨version, flags, hversion, -, rfl⟩
    rw [parseFooterLocator_footerFields version flags _ _ hversion loc.parquetOffset.toNat_lt
      loc.parquetLength.toNat_lt, UInt64.ofNat_toNat, UInt64.ofNat_toNat]

/-- The locator accepts a file exactly when its last 44 bytes are a footer block that records a
non-empty range inside the file, and then it returns that range, printed. -/
theorem locator_accepts_footers {handle : FileHandle} {content : Bytes}
    (hholds : handle.Holds content) (source location : Bytes) :
    parsePqcapMetadataLocation handle source = .ok location ↔
      44 ≤ content.length ∧ ∃ version flags offset length : ℕ,
        version ≤ 1 ∧ flags < 2 ^ 16 ∧ offset < 2 ^ 64 ∧ length < 2 ^ 64 ∧
          content.drop (content.length - 44) =
            (footerFields version flags offset length).flatten ∧
          0 < length ∧ offset + length ≤ content.length ∧
            location = decimal offset ++ ascii "_" ++ decimal length := by
  rw [parsePqcapMetadataLocation_eq_ok_iff hholds]
  refine and_congr_right fun hlong => ?_
  have htail : slice content (content.length - 44) 44 = content.drop (content.length - 44) := by
    apply List.take_of_length_le
    rw [List.length_drop]
    omega
  simp only [htail, parseFooterLocator_eq_some_iff_fields]
  constructor
  · rintro ⟨loc, ⟨version, flags, hversion, hflags, hfields⟩, ⟨hpositive, hend⟩, hlocation⟩
    exact ⟨version, flags, loc.parquetOffset.toNat, loc.parquetLength.toNat, hversion, hflags,
      loc.parquetOffset.toNat_lt, loc.parquetLength.toNat_lt, hfields, hpositive, hend, hlocation⟩
  · rintro ⟨version, flags, offset, length, hversion, hflags, hoffset, hlength, hfields,
      hpositive, hend, hlocation⟩
    have hoffset' := uint64_ofNat_toNat hoffset
    have hlength' := uint64_ofNat_toNat hlength
    refine ⟨⟨UInt64.ofNat offset, UInt64.ofNat length⟩, ⟨version, flags, hversion, hflags, ?_⟩,
      ?_, ?_⟩
    · rw [hoffset', hlength', hfields]
    · rw [FooterLocator.Inside, hoffset', hlength']
      exact ⟨hpositive, hend⟩
    · rw [FooterLocator.printed, hoffset', hlength', hlocation]

/-- One byte of a file and a footer block that records it. -/
def smallestBundle : Bytes := 7 :: (footerFields 1 0 0 1).flatten

/-- A file of 45 bytes in memory. -/
theorem locator_accepts_smallestBundle :
    parsePqcapMetadataLocation (FileHandle.ofContent smallestBundle) (ascii "a") =
        .ok (ascii "0_1") ↔
      44 ≤ smallestBundle.length ∧ ∃ version flags offset length : ℕ,
        version ≤ 1 ∧ flags < 2 ^ 16 ∧ offset < 2 ^ 64 ∧ length < 2 ^ 64 ∧
          smallestBundle.drop (smallestBundle.length - 44) =
            (footerFields version flags offset length).flatten ∧
          0 < length ∧ offset + length ≤ smallestBundle.length ∧
            ascii "0_1" = decimal offset ++ ascii "_" ++ decimal length :=
  locator_accepts_footers (FileHandle.ofContent_holds smallestBundle (by decide)) (ascii "a")
    (ascii "0_1")

end PqcapReader
