import PqcapReader.ClassicPcap
import PqcapReader.L4Fields
import PqcapReader.Database
import PqcapReader.Library.Effects

/-!
# The packet table

`read_pqcap_packets` emits one row of twelve columns for each packet that the reader of
the capture's format returns. The pcapng library is not part of the extension; what the
table asks of it is the sequence of packets it returns for a file.
-/

namespace PqcapReader

open ByteCodec

/-- A row of a result or of a data chunk, in column order. -/
abbrev Row := List Value

/-- The pcapng library. `packets` is what `light_get_next_packet` returns for a file until it
reports the end, `none` when the file cannot be opened. A writer is opened with the link
type of its file, is given packets, and has `content` in its file once it is closed. -/
structure LightPcapNg where
  Writer : Type
  packets : Bytes → Option (List LightPacket)
  openWrite : UInt16 → Writer
  writePacket : Writer → LightPacketHeader → Bytes → Writer
  content : Writer → Bytes

/-- `TimestampMicros`; the division truncates. -/
def timestampMicros (header : LightPacketHeader) : Int64 :=
  header.tvSec * 1000000 + header.tvNsec / 1000

/-- The bytes that the row shows: the captured ones, none for a null pointer. -/
def LightPacket.bytes (packet : LightPacket) : Bytes :=
  match packet.data with
  | some data => if packet.header.capturedLength > 0 then
      data.take packet.header.capturedLength.toNat else []
  | none => []

/-- The comment of a packet, empty when there is none. -/
def LightPacketHeader.commentText (header : LightPacketHeader) : Bytes := header.comment.getD []

/-- A VARCHAR cell, NULL for the empty text. -/
def varcharOrNull (text : Bytes) : Value := if text.isEmpty then .null else .varchar text

/-- The value that `SetPayloadValue` stores. -/
def payloadValue (packet : Bytes) : Value := if packet.isEmpty then .null else .blob packet

/-- An INTEGER cell for a port, NULL when no ports were parsed. -/
def portValue (hasPorts : Bool) (port : Int32) : Value :=
  if hasPorts then .integer port else .null

/-- The cell for a comment: NULL without one, and otherwise a `Value`, whose text the database
checks. -/
def commentValue (db : Database) (header : LightPacketHeader) : Except Exception Value :=
  if header.commentText.isEmpty then
    .ok .null
  else if db.validText header.commentText then
    .ok (.varchar header.commentText)
  else
    .error (.invalidInputException (ascii "Invalid unicode detected in value construction"))

/-- The row that one iteration of `ReadPqcapPacketsFunction` emits. -/
def packetRow (packet : LightPacket) : Row :=
  let header := packet.header
  let parsed := l4Fields header.dataLink packet.bytes
  [.bigint (timestampMicros header), .ubigint header.interfaceId.toUInt64,
    .usmallint header.dataLink, .ubigint header.capturedLength.toUInt64,
    .ubigint header.originalLength.toUInt64, varcharOrNull header.commentText,
    varcharOrNull parsed.srcIp, varcharOrNull parsed.dstIp,
    portValue parsed.hasPorts parsed.srcPort, portValue parsed.hasPorts parsed.dstPort,
    .varchar parsed.l4Protocol, payloadValue packet.bytes]

/-- The column names that `ReadPqcapPacketsBind` returns. -/
def packetColumns : List Bytes :=
  [ascii "timestamp_micros", ascii "interface_id", ascii "data_link", ascii "captured_length",
    ascii "orig_len", ascii "comment", ascii "src_ip", ascii "dst_ip", ascii "src_port",
    ascii "dst_port", ascii "l4_protocol", ascii "payload"]

/-- The packets of a capture, read by the reader of its format. -/
def capturePackets (light : LightPcapNg) (path : Bytes) (file : Option Bytes) :
    Except Exception (List LightPacket) := do
  let kind ← detectCaptureFormat path file
  let content := file.getD []
  match kind with
  | .pcapng =>
    match light.packets content with
    | none =>
      .error (.ioException (ascii "read_pqcap_packets: failed to open pcapng file '" ++ path ++
        ascii "'"))
    | some packets => .ok packets
  | .classicPcap => ClassicPcapReader.packets path content

/-- The row of a packet, when its comment is a text. -/
def emittedRow (db : Database) (packet : LightPacket) : Except Exception Row := do
  let _ ← commentValue db packet.header
  pure (packetRow packet)

/-- `read_pqcap_packets`: one row for each packet, in order. -/
def readPqcapPackets (db : Database) (light : LightPcapNg) (path : Bytes) (file : Option Bytes) :
    Except Exception (List Row) := do
  let packets ← capturePackets light path file
  packets.mapM (emittedRow db)

/-- `SELECT` of columns by their names. -/
def selectColumns (names wanted : List Bytes) (row : Row) : Row :=
  wanted.map fun name => row.getD (names.idxOf name) .null

/-- The cell of a row in a column of the packet table. -/
def packetCell (row : Row) (name : Bytes) : Value := row.getD (packetColumns.idxOf name) .null

section Rows

variable (packet : LightPacket)

/-- The ports and the label of a row come from well-formed fields. -/
theorem l4Fields_wellFormed (dataLink : UInt16) (bytes : Bytes) :
    (l4Fields dataLink bytes).WellFormed :=
  parseL4Fields_wellFormed _ _ _ _

/-- Only the two timestamp fields decide the timestamp of a row, in unbounded integers
modulo `2 ^ 64`. -/
theorem timestampMicros_emod (header : LightPacketHeader) :
    ((timestampMicros header).toUInt64.toNat : ℤ) =
      (header.tvSec.toInt * 1000000 + header.tvNsec.toInt.tdiv 1000) % 2 ^ 64 := by
  have hthousand : (1000 : Int64).toInt = 1000 := by decide
  have hmillion : (1000000 : Int64).toInt = 1000000 := by decide
  have hdiv : (header.tvNsec / 1000).toInt = header.tvNsec.toInt.tdiv 1000 := by
    rw [Int64.toInt_div_of_ne_right _ _ (by decide), hthousand]
  have hmodulus : (2 : ℤ) ^ 64 = ((2 ^ 64 : ℕ) : ℤ) := by norm_num
  rw [← int64_emod, timestampMicros, Int64.toInt_add, Int64.toInt_mul, hmillion, hdiv,
    Int.bmod_add_bmod, hmodulus, Int.bmod_emod]

/-- A packet shows a payload exactly when it counts bytes and points at them. -/
theorem LightPacket.Covers.bytes_ne_nil_iff {packet : LightPacket} (hcovers : packet.Covers) :
    packet.bytes ≠ [] ↔ 0 < packet.header.capturedLength.toNat ∧ packet.data.isSome = true := by
  have hpositive : packet.header.capturedLength > 0 ↔ 0 < packet.header.capturedLength.toNat :=
    UInt32.lt_iff_toNat_lt
  rw [LightPacket.bytes]
  cases hdata : packet.data with
  | none => simp
  | some data =>
    have hlength := hcovers data hdata
    by_cases hcount : packet.header.capturedLength > 0
    · have hbytes := hpositive.mp hcount
      simp only [if_pos hcount, ne_eq, ← List.length_eq_zero_iff, List.length_take, hbytes,
        Option.isSome_some, and_self, iff_true]
      omega
    · have hnone := mt hpositive.mpr hcount
      simp only [if_neg hcount, ne_eq, not_true_eq_false, hnone, false_and]

/-- A payload has as many bytes as its header counts. -/
theorem LightPacket.Covers.bytes_length {packet : LightPacket} (hcovers : packet.Covers)
    (hsome : packet.bytes ≠ []) : packet.bytes.length = packet.header.capturedLength.toNat := by
  obtain ⟨hpositive, hpointer⟩ := hcovers.bytes_ne_nil_iff.mp hsome
  obtain ⟨data, hdata⟩ := Option.isSome_iff_exists.mp hpointer
  have hlength := hcovers data hdata
  have hcount : packet.header.capturedLength > 0 := UInt32.lt_iff_toNat_lt.mpr hpositive
  rw [LightPacket.bytes, hdata]
  simp only [if_pos hcount, List.length_take]
  omega

/-- A payload is counted by 32 bits. -/
theorem LightPacket.bytes_length_lt (packet : LightPacket) : packet.bytes.length < 2 ^ 32 := by
  have hcaptured := packet.header.capturedLength.toNat_lt
  rw [LightPacket.bytes]
  split
  · split
    · rw [List.length_take]
      omega
    · exact Nat.two_pow_pos 32
  · exact Nat.two_pow_pos 32

end Rows

section Comments

variable {db : Database}

/-- The packet has no comment, or one that the database takes as a text. -/
def LightPacket.ShowsComment (db : Database) (packet : LightPacket) : Prop :=
  packet.header.commentText = [] ∨ db.validText packet.header.commentText = true

/-- Exactly such a comment becomes a cell. -/
theorem commentValue_eq_ok_iff (packet : LightPacket) (value : Value) :
    commentValue db packet.header = .ok value ↔
      packet.ShowsComment db ∧ varcharOrNull packet.header.commentText = value := by
  rw [commentValue, varcharOrNull, LightPacket.ShowsComment, ← List.isEmpty_iff]
  cases packet.header.commentText.isEmpty with
  | true => simp
  | false =>
    cases db.validText packet.header.commentText with
    | true => simp
    | false => simp

theorem emittedRow_eq_ok_iff (packet : LightPacket) (row : Row) :
    emittedRow db packet = .ok row ↔ packet.ShowsComment db ∧ packetRow packet = row := by
  rw [emittedRow, Effects.except_bind_eq_ok]
  simp only [commentValue_eq_ok_iff, and_assoc]
  constructor
  · rintro ⟨value, hshows, -, hrow⟩
    exact ⟨hshows, Except.ok.inj hrow⟩
  · rintro ⟨hshows, rfl⟩
    exact ⟨_, hshows, rfl, rfl⟩

/-- The table has the row of each packet, and there is one when all comments are texts. -/
theorem readPqcapPackets_eq_ok_iff (light : LightPcapNg) (path : Bytes) (file : Option Bytes)
    (table : List Row) :
    readPqcapPackets db light path file = .ok table ↔
      ∃ packets, capturePackets light path file = .ok packets ∧
        (∀ packet ∈ packets, packet.ShowsComment db) ∧ packets.map packetRow = table := by
  rw [readPqcapPackets, Effects.except_bind_eq_ok]
  refine exists_congr fun packets => and_congr_right fun _ => ?_
  rw [Effects.except_mapM_eq_ok]
  have hequal : List.Forall₂ (· = ·) (packets.map packetRow) table ↔ packets.map packetRow = table :=
    iff_of_eq (congrFun₂ List.forall₂_eq_eq_eq _ _)
  simp only [emittedRow_eq_ok_iff, List.forall₂_and_left]
  rw [← hequal, List.forall₂_map_left_iff]

end Comments

/-- The pcapng library returns packets whose pointers lead to the bytes that they count. -/
def LightPcapNg.DeliversPackets (light : LightPcapNg) : Prop :=
  ∀ content packets, light.packets content = some packets → ∀ packet ∈ packets, packet.Covers

/-- Either reader returns such packets. -/
theorem capturePackets_cover {light : LightPcapNg} (hlight : light.DeliversPackets) {path : Bytes}
    {file : Option Bytes} {packets : List LightPacket}
    (h : capturePackets light path file = .ok packets) : ∀ packet ∈ packets, packet.Covers := by
  rw [capturePackets] at h
  obtain ⟨kind, -, h⟩ := Effects.except_bind_eq_ok.mp h
  cases kind with
  | classicPcap => exact ClassicPcapReader.packets_cover h
  | pcapng =>
    cases hread : light.packets (file.getD []) with
    | none =>
      simp only [hread] at h
      cases h
    | some found =>
      simp only [hread, Except.ok.injEq] at h
      exact h ▸ hlight _ found hread

end PqcapReader
