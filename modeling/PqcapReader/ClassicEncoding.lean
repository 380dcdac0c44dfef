import PqcapReader.ClassicPcap
import PqcapReader.Library.Words

/-!
# Classic captures, written and read

A classic capture is a header of 24 bytes and one record after the other, in either byte
order and with either timestamp unit. On any prefix of one, `ClassicPcapReader` returns the
records that the prefix holds whole, and what it does at the cut depends on whether the
next record's header is complete.
-/

namespace PqcapReader

open ByteCodec

/-- The byte order, relative to the host, and the timestamp unit of a classic capture. -/
structure ClassicFormat where
  swapped : Bool
  nanosecond : Bool
  deriving DecidableEq, Repr

/-- The fields of the global header behind the magic number. -/
structure ClassicHeader where
  versionMajor : UInt16
  versionMinor : UInt16
  thiszone : UInt32
  sigfigs : UInt32
  snaplen : UInt32
  linktype : UInt32
  deriving DecidableEq, Repr

/-- One packet of a classic capture; its data's length fits the length field. -/
structure ClassicRecord where
  seconds : UInt32
  subseconds : UInt32
  originalLength : UInt32
  data : Bytes
  fits : data.length < 2 ^ 32

namespace ClassicFormat

variable (format : ClassicFormat)

/-- A field in the byte order of the format. -/
def field (width value : ℕ) : Bytes :=
  if format.swapped then (leBytes width value).reverse else leBytes width value

/-- The magic number says the timestamp unit, and the byte order by its own. -/
def magicNumber : ℕ := if format.nanosecond then 0xA1B23C4D else 0xA1B2C3D4

def headerFields (header : ClassicHeader) : List Bytes :=
  [format.field 2 header.versionMajor.toNat, format.field 2 header.versionMinor.toNat,
    format.field 4 header.thiszone.toNat, format.field 4 header.sigfigs.toNat,
    format.field 4 header.snaplen.toNat, format.field 4 header.linktype.toNat]

def recordFields (record : ClassicRecord) : List Bytes :=
  [format.field 4 record.seconds.toNat, format.field 4 record.subseconds.toNat,
    format.field 4 record.data.length, format.field 4 record.originalLength.toNat]

def encodeRecord (record : ClassicRecord) : Bytes :=
  (format.recordFields record).flatten ++ record.data

def encodeRecords (records : List ClassicRecord) : Bytes := records.flatMap format.encodeRecord

def encode (header : ClassicHeader) (records : List ClassicRecord) : Bytes :=
  format.field 4 format.magicNumber ++ (format.headerFields header).flatten ++
    format.encodeRecords records

@[simp] theorem field_length (width value : ℕ) : (format.field width value).length = width := by
  unfold field
  split
  · rw [List.length_reverse, leBytes_length]
  · exact leBytes_length width value

theorem encodeRecord_length (record : ClassicRecord) :
    (format.encodeRecord record).length = 16 + record.data.length := by
  simp only [encodeRecord, recordFields, List.length_append, List.length_flatten, List.map_cons,
    List.map_nil, List.sum_cons, List.sum_nil, field_length]
  omega

end ClassicFormat

/-- The packet that stands for a record in a capture of the given unit and link type. -/
def ClassicRecord.packet (record : ClassicRecord) (nanosecond : Bool) (linktype : UInt32) :
    LightPacket where
  header :=
    { interfaceId := 0
      tvSec := Int64.ofNat record.seconds.toNat
      tvNsec := Int64.ofNat (record.subseconds.toNat * if nanosecond then 1 else 1000)
      capturedLength := UInt32.ofNat record.data.length
      originalLength := record.originalLength
      dataLink := linktype.toUInt16
      comment := none }
  data := some record.data

/-- The swapped word has the bytes of the word in reverse order. -/
theorem toNat_swap32 (v : UInt32) : (swap32 v).toNat = leValue (leBytes 4 v.toNat).reverse := by
  have hv := v.toNat_lt
  have h8 : (8 : UInt32).toNat % 32 = 8 := rfl
  have h16 : (16 : UInt32).toNat % 32 = 16 := rfl
  have h24 : (24 : UInt32).toNat % 32 = 24 := rfl
  have hlow (word : UInt32) : (word &&& 0xff).toNat = word.toNat / 2 ^ 0 % 256 * 2 ^ 0 :=
    toNat_and_byteMask word 0xff rfl
  have hfirst : (v >>> 24) &&& (0xFF : UInt32) = ((v >>> 24) &&& 0xff).toUInt8.toUInt32 := by
    simp only [← UInt32.toNat_inj, UInt8.toNat_toUInt32, UInt32.toNat_toUInt8, hlow]
    omega
  have hsecond : (v >>> 8) &&& (0xFF00 : UInt32) =
      ((v >>> 16) &&& 0xff).toUInt8.toUInt32 <<< 8 := by
    rw [← UInt32.toNat_inj,
      toNat_and_byteMask _ _ (show (0xFF00 : UInt32).toNat = 255 <<< 8 from rfl)]
    simp only [UInt8.toNat_toUInt32, UInt32.toNat_toUInt8, hlow, UInt32.toNat_shiftRight,
      UInt32.toNat_shiftLeft, h8, h16, Nat.shiftLeft_eq, Nat.shiftRight_eq_div_pow]
    omega
  have hthird : (v <<< 8) &&& (0xFF0000 : UInt32) =
      ((v >>> 8) &&& 0xff).toUInt8.toUInt32 <<< 16 := by
    rw [← UInt32.toNat_inj,
      toNat_and_byteMask _ _ (show (0xFF0000 : UInt32).toNat = 255 <<< 16 from rfl)]
    simp only [UInt8.toNat_toUInt32, UInt32.toNat_toUInt8, hlow, UInt32.toNat_shiftRight,
      UInt32.toNat_shiftLeft, h8, h16, Nat.shiftLeft_eq, Nat.shiftRight_eq_div_pow]
    omega
  have hfourth : (v <<< 24) &&& (0xFF000000 : UInt32) =
      (v &&& 0xff).toUInt8.toUInt32 <<< 24 := by
    rw [← UInt32.toNat_inj,
      toNat_and_byteMask _ _ (show (0xFF000000 : UInt32).toNat = 255 <<< 24 from rfl)]
    simp only [UInt8.toNat_toUInt32, UInt32.toNat_toUInt8, hlow, UInt32.toNat_shiftLeft, h24,
      Nat.shiftLeft_eq]
    omega
  rw [swap32, hfirst, hsecond, hthird, hfourth, uint32_of_bytes, leBytes_uint32]
  rfl

namespace ClassicPcapReader

/-- A field is read back as the item of its size. -/
theorem fread_field {count : ℕ} (field rest : Bytes) (hcount : field.length = count) :
    fread count (field ++ rest) = (some field, rest) := by
  rw [fread_eq_some_iff, List.length_append, List.take_left' hcount, List.drop_left' hcount, hcount]
  exact ⟨Nat.le_add_right _ _, rfl, rfl⟩

/-- Fields are read back as the items of their sizes. -/
theorem freadItems_flatten (fields : List Bytes) (rest : Bytes) :
    freadItems (fields.map List.length) (fields.flatten ++ rest) = (some fields, rest) := by
  induction fields with
  | nil => rfl
  | cons field fields ih =>
    rw [List.map_cons, List.flatten_cons, List.append_assoc, freadItems,
      fread_field field (fields.flatten ++ rest) rfl]
    simp only [ih]

/-- Items that do not fit into the file use it up. -/
theorem freadItems_eq_none {counts : List ℕ} {file : Bytes} (h : file.length < counts.sum) :
    freadItems counts file = (none, []) := by
  induction counts generalizing file with
  | nil => exact absurd h (Nat.not_lt_zero _)
  | cons count counts ih =>
    rw [List.sum_cons] at h
    rw [freadItems, fread]
    by_cases hcount : count ≤ file.length
    · simp only [if_pos hcount, ih (show (file.drop count).length < counts.sum by
        rw [List.length_drop]; omega)]
    · simp only [if_neg hcount]

variable {format : ClassicFormat} {reader : ClassicPcapReader}

/-- A word of the file is read in the file's byte order. -/
theorem word_field (hswap : reader.swapEndian = format.swapped) {value : ℕ} (h : value < 2 ^ 32) :
    reader.word (format.field 4 value) = UInt32.ofNat value := by
  have hvalue : leValue (leBytes 4 value) = value := leValue_leBytes_of_lt (by norm_num; omega)
  unfold word ClassicFormat.field
  rw [hswap]
  cases format.swapped with
  | false => simp only [Bool.false_eq_true, if_false, hostWord, hvalue]
  | true =>
    have hbytes := leBytes_leValue (leBytes 4 value).reverse
    have hbound := leValue_lt (leBytes 4 value).reverse
    rw [List.length_reverse, leBytes_length] at hbytes hbound
    simp only [if_true, hostWord]
    apply UInt32.toNat_inj.mp
    rw [toNat_swap32, UInt32.toNat_ofNat', Nat.mod_eq_of_lt (by norm_num at hbound; omega), hbytes,
      List.reverse_reverse, hvalue, UInt32.toNat_ofNat', Nat.mod_eq_of_lt h]

/-- The magic number of a format stands for its flags. -/
theorem magicFlags_magicNumber (format : ClassicFormat) :
    magicFlags (hostWord (format.field 4 format.magicNumber)) =
      some (format.swapped, format.nanosecond) := by
  obtain ⟨swapped, nanosecond⟩ := format
  cases swapped <;> cases nanosecond <;> decide

/-- The constructor keeps the flags and the link type of the header. -/
theorem construct_encode (path : Bytes) (header : ClassicHeader) (body : Bytes) :
    construct path (format.field 4 format.magicNumber ++ (format.headerFields header).flatten ++
        body) =
      .ok ⟨body, format.swapped, format.nanosecond, header.linktype, false⟩ := by
  have hitems : freadItems [2, 2, 4, 4, 4, 4] ((format.headerFields header).flatten ++ body) =
      (some (format.headerFields header), body) := by
    have h := freadItems_flatten (format.headerFields header) body
    simp only [ClassicFormat.headerFields, List.map_cons, List.map_nil,
      ClassicFormat.field_length] at h
    exact h
  have hword : (ClassicPcapReader.mk body format.swapped format.nanosecond 0 false).word
      (format.field 4 header.linktype.toNat) = UInt32.ofNat header.linktype.toNat :=
    word_field rfl header.linktype.toNat_lt
  rw [construct, List.append_assoc, fread_field _ _ (format.field_length 4 _)]
  simp only [magicFlags_magicNumber, hitems]
  rw [UInt32.ofNat_toNat] at hword
  exact congrArg (fun word => Except.ok
    (ClassicPcapReader.mk body format.swapped format.nanosecond word false)) hword

/-- A header that is cut short stops the constructor. -/
theorem construct_short (path : Bytes) {header : ClassicHeader} {records : List ClassicRecord}
    {part : Bytes} (hpart : part <+: format.encode header records) (hshort : part.length < 24) :
    construct path part =
      .error (.ioException (ascii "read_pqcap_packets: truncated pcap global header")) := by
  rw [construct]
  by_cases hmagic : 4 ≤ part.length
  · have htake : part.take 4 = format.field 4 format.magicNumber := by
      obtain ⟨rest, hrest⟩ := hpart
      have h := congrArg (List.take 4) hrest
      rw [List.take_append_of_le_length hmagic, ClassicFormat.encode, List.append_assoc,
        List.take_left' (format.field_length 4 _)] at h
      exact h
    have hitems : freadItems [2, 2, 4, 4, 4, 4] (part.drop 4) = (none, []) := by
      apply freadItems_eq_none
      rw [List.length_drop]
      change _ < 20
      omega
    rw [(fread_eq_some_iff 4 part _ _).mpr ⟨hmagic, rfl, rfl⟩, htake]
    simp only [magicFlags_magicNumber, hitems]
  · rw [fread, if_neg hmagic]

/-- The four words of a record's header, read from the file. -/
theorem freadItems_recordFields (record : ClassicRecord) (rest : Bytes) :
    freadItems [4, 4, 4, 4] ((format.recordFields record).flatten ++ rest) =
      (some (format.recordFields record), rest) := by
  have h := freadItems_flatten (format.recordFields record) rest
  simp only [ClassicFormat.recordFields, List.map_cons, List.map_nil,
    ClassicFormat.field_length] at h
  exact h

/-- The words of a record's header give the header of its packet. -/
theorem recordHeader_recordFields (record : ClassicRecord)
    (hswap : reader.swapEndian = format.swapped) :
    reader.recordHeader (reader.word ((format.recordFields record).getD 0 []))
        (reader.word ((format.recordFields record).getD 1 []))
        (reader.word ((format.recordFields record).getD 2 []))
        (reader.word ((format.recordFields record).getD 3 [])) =
      (record.packet reader.nanosecondTs reader.linktype).header := by
  have hword (v : UInt32) : reader.word (format.field 4 v.toNat) = v := by
    rw [word_field hswap v.toNat_lt, UInt32.ofNat_toNat]
  change reader.recordHeader (reader.word (format.field 4 record.seconds.toNat))
    (reader.word (format.field 4 record.subseconds.toNat))
    (reader.word (format.field 4 record.data.length))
    (reader.word (format.field 4 record.originalLength.toNat)) = _
  rw [hword, hword, hword, word_field hswap record.fits, recordHeader, ClassicRecord.packet]
  cases reader.nanosecondTs with
  | false => simp only [Bool.false_eq_true, if_false, Int64.ofNat_mul]; rfl
  | true => simp only [if_true, Nat.mul_one]

/-- The data of a record is read by its length. -/
theorem recordData_append_data {data : Bytes} (rest : Bytes) (hfits : data.length < 2 ^ 32) :
    recordData (UInt32.ofNat data.length) (data ++ rest) = (some data, rest) := by
  have hlength : (UInt32.ofNat data.length).toNat = data.length := by
    rw [UInt32.toNat_ofNat', Nat.mod_eq_of_lt hfits]
  unfold recordData
  split
  · exact fread_field data rest hlength.symm
  · rename_i hzero
    have hcount := mt UInt32.lt_iff_toNat_lt.mpr hzero
    have hnone : (0 : UInt32).toNat = 0 := rfl
    rw [List.eq_nil_of_length_eq_zero (by omega : data.length = 0), List.nil_append]

/-- Data that is cut short is not read. -/
theorem recordData_short {inclLen : UInt32} {file : Bytes} (h : file.length < inclLen.toNat) :
    recordData inclLen file = (none, []) := by
  have hpositive : inclLen > 0 := UInt32.lt_iff_toNat_lt.mpr (Nat.zero_lt_of_lt h)
  rw [recordData, if_pos hpositive, fread, if_neg (not_le.mpr h)]

/-- `Next` on the encoding of a record returns its packet and stands behind it. -/
theorem next_encodeRecord {record : ClassicRecord} {rest : Bytes}
    (hswap : reader.swapEndian = format.swapped) (hopen : reader.finished = false)
    (hfile : reader.file = format.encodeRecord record ++ rest) :
    reader.next = (.ok (some (record.packet reader.nanosecondTs reader.linktype)),
      { reader with file := rest }) := by
  rw [ClassicFormat.encodeRecord, List.append_assoc] at hfile
  have hlength : reader.word ((format.recordFields record).getD 2 []) =
      UInt32.ofNat record.data.length := word_field hswap record.fits
  refine next_eq_some_iff.mpr ⟨hopen, format.recordFields record, record.data ++ rest, record.data,
    rest, ?_, ?_, ?_, rfl⟩
  · rw [hfile, freadItems_recordFields]
  · rw [hlength, recordData_append_data rest record.fits]
  · rw [recordHeader_recordFields record hswap]
    rfl

/-- `Next` where no record header is left returns `false` and finishes. -/
theorem next_short (hopen : reader.finished = false) (hshort : reader.file.length < 16) :
    reader.next = (.ok none, { reader with file := [], finished := true }) := by
  have hitems : freadItems [4, 4, 4, 4] reader.file = (none, []) := freadItems_eq_none hshort
  simp only [next, hopen, hitems, Bool.false_eq_true, if_false]

/-- `Next` on a complete record header whose data is cut short throws, and uses up the file. -/
theorem next_cut {record : ClassicRecord} {data : Bytes}
    (hswap : reader.swapEndian = format.swapped) (hopen : reader.finished = false)
    (hfile : reader.file = (format.recordFields record).flatten ++ data)
    (hshort : data.length < record.data.length) :
    reader.next = (.error (.ioException (ascii "read_pqcap_packets: truncated pcap packet data")),
      { reader with file := [] }) := by
  have hlength : reader.word ((format.recordFields record).getD 2 []) =
      UInt32.ofNat record.data.length := word_field hswap record.fits
  have hcut : recordData (UInt32.ofNat record.data.length) data = (none, []) := by
    apply recordData_short
    rw [UInt32.toNat_ofNat', Nat.mod_eq_of_lt record.fits]
    exact hshort
  simp only [next, hopen, hfile, freadItems_recordFields, hlength, hcut, Bool.false_eq_true,
    if_false]

/-- The result of call `i` of `Next`, counted from zero. -/
def call : ℕ → ClassicPcapReader → Except Exception (Option LightPacket)
  | 0, reader => reader.next.1
  | i + 1, reader => call i reader.next.2

/-- A reader whose file is used up returns `false` from then on. -/
theorem call_exhausted (hfile : reader.file = []) (i : ℕ) : reader.call i = .ok none := by
  have hnext {reader : ClassicPcapReader} (hfile : reader.file = []) :
      reader.next.1 = .ok none ∧ reader.next.2.file = [] := by
    cases hfinished : reader.finished with
    | true => simp only [next, hfinished, if_true, hfile, and_self]
    | false =>
      rw [next_short hfinished (by rw [hfile]; exact Nat.zero_lt_succ 15)]
      exact ⟨rfl, rfl⟩
  induction i generalizing reader with
  | zero => exact (hnext hfile).1
  | succ i ih => exact ih (hnext hfile).2

end ClassicPcapReader

/-- The bytes that a record takes. -/
def ClassicRecord.size (record : ClassicRecord) : ℕ := 16 + record.data.length

/-- Of the records laid out in a row, `room` bytes hold the first `count` whole and no more. -/
structure HoldsWhole (records : List ClassicRecord) (room count : ℕ) : Prop where
  count_le : count ≤ records.length
  fits : ((records.take count).map ClassicRecord.size).sum ≤ room
  next : ∀ record, records[count]? = some record →
    room < ((records.take count).map ClassicRecord.size).sum + record.size

section Cut

variable {record : ClassicRecord} {records : List ClassicRecord} {room count : ℕ}

theorem holdsWhole_nil_iff : HoldsWhole [] room count ↔ count = 0 := by
  constructor
  · intro h
    exact Nat.le_zero.mp h.count_le
  · rintro rfl
    exact ⟨le_rfl, Nat.zero_le room, by simp⟩

/-- No record is whole exactly when the first one does not fit. -/
theorem holdsWhole_zero_iff : HoldsWhole (record :: records) room 0 ↔ room < record.size := by
  constructor
  · intro h
    simpa using h.next record rfl
  · intro h
    exact ⟨Nat.zero_le _, Nat.zero_le room, by simpa using h⟩

/-- Behind a whole record the rest of the room is divided the same way. -/
theorem holdsWhole_succ_iff : HoldsWhole (record :: records) room (count + 1) ↔
    record.size ≤ room ∧ HoldsWhole records (room - record.size) count := by
  constructor
  · rintro ⟨hcount, hfits, hnext⟩
    rw [List.take_succ_cons, List.map_cons, List.sum_cons] at hfits hnext
    refine ⟨by omega, Nat.le_of_succ_le_succ hcount, by omega, ?_⟩
    intro next hget
    have := hnext next hget
    omega
  · rintro ⟨hsize, hcount, hfits, hnext⟩
    refine ⟨Nat.succ_le_succ hcount, ?_, ?_⟩
    · rw [List.take_succ_cons, List.map_cons, List.sum_cons]
      omega
    · intro next hget
      have := hnext next hget
      rw [List.take_succ_cons, List.map_cons, List.sum_cons]
      omega

/-- What `Next` does behind the whole records: it throws when the next record's header is
complete, and returns `false` otherwise. -/
def atCut (records : List ClassicRecord) (room count : ℕ) : Except Exception (Option LightPacket) :=
  if count < records.length ∧ ((records.take count).map ClassicRecord.size).sum + 16 ≤ room then
    .error (.ioException (ascii "read_pqcap_packets: truncated pcap packet data"))
  else
    .ok none

/-- The cut stands where it stood, seen from behind a whole record. -/
theorem atCut_succ (hsize : record.size ≤ room) :
    atCut (record :: records) room (count + 1) = atCut records (room - record.size) count := by
  have hcut : count + 1 < (record :: records).length ∧
      (((record :: records).take (count + 1)).map ClassicRecord.size).sum + 16 ≤ room ↔
        count < records.length ∧
          ((records.take count).map ClassicRecord.size).sum + 16 ≤ room - record.size := by
    rw [List.length_cons, List.take_succ_cons, List.map_cons, List.sum_cons]
    omega
  simp only [atCut, hcut]

/-- The number of whole records depends on the room only. -/
theorem HoldsWhole.unique {other : ℕ} (h : HoldsWhole records room count)
    (h' : HoldsWhole records room other) : count = other := by
  induction records generalizing room count other with
  | nil => rw [holdsWhole_nil_iff.mp h, holdsWhole_nil_iff.mp h']
  | cons record records ih =>
    cases count with
    | zero =>
      cases other with
      | zero => rfl
      | succ other =>
        have hshort := holdsWhole_zero_iff.mp h
        exact absurd (holdsWhole_succ_iff.mp h').1 (not_le.mpr hshort)
    | succ count =>
      cases other with
      | zero =>
        have hshort := holdsWhole_zero_iff.mp h'
        exact absurd (holdsWhole_succ_iff.mp h).1 (not_le.mpr hshort)
      | succ other =>
        rw [ih (holdsWhole_succ_iff.mp h).2 (holdsWhole_succ_iff.mp h').2]

end Cut

namespace ClassicPcapReader

variable {format : ClassicFormat} {reader : ClassicPcapReader}

/-- What all calls of `Next` return, when `count` of the records are whole. -/
structure CallsReturn (reader : ClassicPcapReader) (records : List ClassicRecord)
    (nanosecond : Bool) (linktype : UInt32) (room count : ℕ) : Prop where
  whole : ∀ i record, (records.take count)[i]? = some record →
    reader.call i = .ok (some (record.packet nanosecond linktype))
  cut : reader.call count = atCut records room count
  after : ∀ i, count < i → reader.call i = .ok none

/-- At a cut before the end of the first record, `Next` returns no packet at all. -/
theorem callsReturn_zero {record : ClassicRecord} {records : List ClassicRecord}
    (hswap : reader.swapEndian = format.swapped) (hopen : reader.finished = false)
    (hpart : reader.file <+: format.encodeRecord record)
    (hshort : reader.file.length < record.size) :
    CallsReturn reader (record :: records) reader.nanosecondTs reader.linktype
      reader.file.length 0 := by
  have hnext : reader.next.1 = atCut (record :: records) reader.file.length 0 ∧
      reader.next.2.file = [] := by
    by_cases hheader : 16 ≤ reader.file.length
    · have hfields : (format.recordFields record).flatten.length = 16 := by
        have h := format.encodeRecord_length record
        rw [ClassicFormat.encodeRecord, List.length_append] at h
        omega
      obtain ⟨data, hdata⟩ : (format.recordFields record).flatten <+: reader.file :=
        List.prefix_of_prefix_length_le (List.prefix_append _ _) hpart (by omega)
      have hlength := congrArg List.length hdata
      rw [List.length_append] at hlength
      rw [ClassicRecord.size] at hshort
      rw [next_cut hswap hopen hdata.symm (by omega), atCut, if_pos ⟨Nat.zero_lt_succ _, by simpa⟩]
      exact ⟨rfl, rfl⟩
    · rw [next_short hopen (not_le.mp hheader), atCut, if_neg (by simpa using hheader)]
      exact ⟨rfl, rfl⟩
  refine ⟨?_, hnext.1, ?_⟩
  · intro i found hfound
    rw [List.take_zero] at hfound
    cases hfound
  · intro i hi
    obtain ⟨i, rfl⟩ := Nat.exists_eq_succ_of_ne_zero (Nat.ne_of_gt hi)
    exact call_exhausted hnext.2 i

/-- A first record that `Next` returns stands before what the reader behind it returns. -/
theorem CallsReturn.cons {reader' : ClassicPcapReader} {record : ClassicRecord}
    {records : List ClassicRecord} {nanosecond : Bool} {linktype : UInt32} {room count : ℕ}
    (hnext : reader.next = (.ok (some (record.packet nanosecond linktype)), reader'))
    (hsize : record.size ≤ room)
    (h : CallsReturn reader' records nanosecond linktype (room - record.size) count) :
    CallsReturn reader (record :: records) nanosecond linktype room (count + 1) := by
  have hbehind (i : ℕ) : reader.call (i + 1) = reader'.call i := by rw [call, hnext]
  refine ⟨?_, ?_, ?_⟩
  · intro i found hfound
    cases i with
    | zero =>
      obtain rfl : record = found := Option.some.inj hfound
      rw [call, hnext]
    | succ i => rw [hbehind, h.whole i found hfound]
  · rw [hbehind, h.cut, atCut_succ hsize]
  · intro i hi
    obtain ⟨i, rfl⟩ := Nat.exists_eq_succ_of_ne_zero (Nat.ne_of_gt (Nat.zero_lt_of_lt hi))
    rw [hbehind, h.after i (Nat.lt_of_succ_lt_succ hi)]

/-- On a prefix of encoded records, `Next` returns the whole ones and then stops. -/
theorem exists_callsReturn (records : List ClassicRecord)
    (hswap : reader.swapEndian = format.swapped) (hopen : reader.finished = false)
    (hpart : reader.file <+: format.encodeRecords records) :
    ∃ count, HoldsWhole records reader.file.length count ∧
      CallsReturn reader records reader.nanosecondTs reader.linktype reader.file.length count := by
  induction records generalizing reader with
  | nil =>
    have hfile : reader.file = [] := List.prefix_nil.mp hpart
    refine ⟨0, holdsWhole_nil_iff.mpr rfl, ?_, ?_, ?_⟩
    · intro i found hfound
      cases hfound
    · rw [call_exhausted hfile, atCut, if_neg (fun h => Nat.not_lt_zero _ h.1)]
    · exact fun i _ => call_exhausted hfile i
  | cons record records ih =>
    rw [ClassicFormat.encodeRecords, List.flatMap_cons] at hpart
    have hrecord := format.encodeRecord_length record
    by_cases hwhole : record.size ≤ reader.file.length
    · obtain ⟨rest, hrest⟩ : format.encodeRecord record <+: reader.file :=
        List.prefix_of_prefix_length_le (List.prefix_append _ _) hpart (hrecord.trans_le hwhole)
      rw [← hrest, List.prefix_append_right_inj] at hpart
      have hlength : rest.length = reader.file.length - record.size := by
        have h := congrArg List.length hrest
        rw [List.length_append, hrecord] at h
        rw [ClassicRecord.size]
        omega
      obtain ⟨count, hcount, hcalls⟩ :=
        @ih { reader with file := rest } hswap hopen hpart
      rw [hlength] at hcount hcalls
      exact ⟨count + 1, holdsWhole_succ_iff.mpr ⟨hwhole, hcount⟩,
        hcalls.cons (next_encodeRecord hswap hopen hrest.symm) hwhole⟩
    · have hshort := not_le.mp hwhole
      have hfirst : reader.file <+: format.encodeRecord record :=
        List.prefix_of_prefix_length_le hpart (List.prefix_append _ _) (by
          rw [hrecord]
          exact hshort.le)
      exact ⟨0, holdsWhole_zero_iff.mpr hshort, callsReturn_zero hswap hopen hfirst hshort⟩

/-- The results of all calls are determined by the records and the cut. -/
theorem CallsReturn.call_eq {reader' : ClassicPcapReader} {records : List ClassicRecord}
    {nanosecond : Bool} {linktype : UInt32} {room count : ℕ} (hcount : count ≤ records.length)
    (h : CallsReturn reader records nanosecond linktype room count)
    (h' : CallsReturn reader' records nanosecond linktype room count) (i : ℕ) :
    reader.call i = reader'.call i := by
  rcases Nat.lt_trichotomy i count with hi | rfl | hi
  · have hget : (records.take count)[i]? = some records[i] := by
      rw [List.getElem?_take_of_lt hi, List.getElem?_eq_getElem (Nat.lt_of_lt_of_le hi hcount)]
    rw [h.whole i _ hget, h'.whole i _ hget]
  · rw [h.cut, h'.cut]
  · rw [h.after i hi, h'.after i hi]

/-- A prefix with the whole header gives a reader that stands at the records. -/
theorem construct_prefix (path : Bytes) {header : ClassicHeader} {records : List ClassicRecord}
    {part : Bytes} (hpart : part <+: format.encode header records) (hlong : 24 ≤ part.length) :
    ∃ body, construct path part =
        .ok ⟨body, format.swapped, format.nanosecond, header.linktype, false⟩ ∧
      body <+: format.encodeRecords records ∧ body.length = part.length - 24 := by
  have hheader : (format.field 4 format.magicNumber ++
      (format.headerFields header).flatten).length = 24 := by
    simp only [ClassicFormat.headerFields, List.length_append, List.length_flatten, List.map_cons,
      List.map_nil, List.sum_cons, List.sum_nil, ClassicFormat.field_length]
    rfl
  obtain ⟨body, rfl⟩ : format.field 4 format.magicNumber ++ (format.headerFields header).flatten <+:
      part := List.prefix_of_prefix_length_le (List.prefix_append _ _) hpart (by omega)
  refine ⟨body, construct_encode path header body, ?_, ?_⟩
  · rw [ClassicFormat.encode, List.prefix_append_right_inj] at hpart
    exact hpart
  · rw [List.length_append, hheader]
    omega

/-- What a client sees of a classic capture: the constructor's exception, or the results of
all calls of `Next`. -/
def calls (path content : Bytes) :
    Except Exception (ℕ → Except Exception (Option LightPacket)) :=
  (construct path content).map fun reader i => reader.call i

/-- The reader on a prefix of an encoded capture, from its construction to its last call. -/
theorem calls_prefix (path : Bytes) {header : ClassicHeader} {records : List ClassicRecord}
    {part : Bytes} (hpart : part <+: format.encode header records) (hlong : 24 ≤ part.length) :
    ∃ reader count, construct path part = .ok reader ∧
      HoldsWhole records (part.length - 24) count ∧
        CallsReturn reader records format.nanosecond header.linktype (part.length - 24) count := by
  obtain ⟨body, hreader, hbody, hlength⟩ := construct_prefix path hpart hlong
  obtain ⟨count, hcount, hcalls⟩ := @exists_callsReturn format
    ⟨body, format.swapped, format.nanosecond, header.linktype, false⟩ records rfl rfl hbody
  exact ⟨_, count, hreader, hlength ▸ hcount, hlength ▸ hcalls⟩

end ClassicPcapReader

section Decoding

open ClassicPcapReader

/-- On every prefix of an encoded capture the constructor throws exactly when the header is cut
short; otherwise `Next` returns the whole records' packets, throws once if the next record's
header is complete, and returns `false` from then on. Captures that differ in the byte order
only look the same. -/
theorem classicReader_decodes_prefix (path : Bytes) (format : ClassicFormat)
    (header : ClassicHeader) (records : List ClassicRecord) {part : Bytes}
    (hpart : part <+: format.encode header records) :
    ((∃ error, construct path part = .error error) ↔ part.length < 24) ∧
      (∀ reader, construct path part = .ok reader →
        ∃ count, HoldsWhole records (part.length - 24) count ∧
          CallsReturn reader records format.nanosecond header.linktype (part.length - 24) count) ∧
        ∀ swapped other, other <+: ClassicFormat.encode ⟨swapped, format.nanosecond⟩ header records →
          other.length = part.length → calls path other = calls path part := by
  by_cases hshort : part.length < 24
  · have herror := construct_short path hpart hshort
    refine ⟨⟨fun _ => hshort, fun _ => ⟨_, herror⟩⟩, ?_, ?_⟩
    · intro reader hreader
      rw [herror] at hreader
      cases hreader
    · intro swapped other hother hlength
      rw [calls, calls, herror, construct_short path hother (by omega)]
  · have hlong := not_lt.mp hshort
    obtain ⟨reader, count, hreader, hcount, hcalls⟩ := calls_prefix path hpart hlong
    refine ⟨⟨?_, fun h => absurd h hshort⟩, ?_, ?_⟩
    · rintro ⟨error, herror⟩
      rw [hreader] at herror
      cases herror
    · intro reader' hreader'
      rw [hreader, Except.ok.injEq] at hreader'
      exact ⟨count, hcount, hreader' ▸ hcalls⟩
    · intro swapped other hother hlength
      obtain ⟨reader', count', hreader', hcount', hcalls'⟩ :=
        calls_prefix path hother (hlength.symm ▸ hlong)
      rw [hlength] at hcount' hcalls'
      obtain rfl := hcount.unique hcount'
      rw [calls, calls, hreader, hreader']
      refine congrArg Except.ok ?_
      funext i
      exact hcalls'.call_eq hcount.count_le hcalls i

/-- Two records, the first one without bytes, with all fields away from their defaults. -/
def sampleRecords : List ClassicRecord :=
  [⟨0x01020304, 0x05060708, 60, [], by decide⟩, ⟨0xFFFFFFFF, 999999, 4, [1, 2, 3, 4], by decide⟩]

/-- A swapped capture, cut inside the data of its second record. -/
theorem classicReader_decodes_prefix_sample :
    ((∃ error, construct (ascii "a.pcap")
        ((ClassicFormat.encode ⟨true, false⟩ ⟨2, 4, 0, 0, 65535, 0x10065⟩ sampleRecords).take 58) =
          .error error) ↔
      ((ClassicFormat.encode ⟨true, false⟩ ⟨2, 4, 0, 0, 65535, 0x10065⟩ sampleRecords).take
        58).length < 24) ∧
      (∀ reader, construct (ascii "a.pcap")
          ((ClassicFormat.encode ⟨true, false⟩ ⟨2, 4, 0, 0, 65535, 0x10065⟩ sampleRecords).take 58) =
            .ok reader →
        ∃ count, HoldsWhole sampleRecords (((ClassicFormat.encode ⟨true, false⟩
            ⟨2, 4, 0, 0, 65535, 0x10065⟩ sampleRecords).take 58).length - 24) count ∧
          CallsReturn reader sampleRecords false 0x10065 (((ClassicFormat.encode ⟨true, false⟩
            ⟨2, 4, 0, 0, 65535, 0x10065⟩ sampleRecords).take 58).length - 24) count) ∧
        ∀ swapped other, other <+: ClassicFormat.encode ⟨swapped, false⟩
            ⟨2, 4, 0, 0, 65535, 0x10065⟩ sampleRecords →
          other.length = ((ClassicFormat.encode ⟨true, false⟩ ⟨2, 4, 0, 0, 65535, 0x10065⟩
            sampleRecords).take 58).length →
            calls (ascii "a.pcap") other = calls (ascii "a.pcap")
              ((ClassicFormat.encode ⟨true, false⟩ ⟨2, 4, 0, 0, 65535, 0x10065⟩
                sampleRecords).take 58) :=
  classicReader_decodes_prefix (ascii "a.pcap") ⟨true, false⟩ ⟨2, 4, 0, 0, 65535, 0x10065⟩
    sampleRecords (List.take_prefix 58 _)

end Decoding

end PqcapReader
