import PqcapReader.ClassicEmbed
import PqcapReader.Timestamps

/-!
# From the packet table back into a capture

COPY of the rows of `read_pqcap_packets` sends every cell through a second mapping of
columns. The columns are found by name, so their order does not matter; what the sink
rejects or changes are NULL payloads, negative times, comments, link types of zero, and
the text that the database makes of a BLOB.
-/

namespace PqcapReader

open ByteCodec Effects

section Columns

variable {names : List Bytes} (hnames : names.Perm packetColumns)

/-- The column names are told apart without regard to case, and none is called protocols. -/
theorem packetColumns_distinct :
    (∀ left ∈ packetColumns, ∀ right ∈ packetColumns, ciEquals left right = true → left = right) ∧
      ∀ name ∈ packetColumns, ciEquals name (ascii "protocols") = false := by
  decide +kernel

include hnames

/-- Wherever a column stands, it is found by its name. -/
theorem cell_findColumnIdx {needle : Bytes} (hneedle : needle ∈ packetColumns) (row : Row) :
    cell (selectColumns packetColumns names row) (findColumnIdx names needle) =
      packetCell row needle := by
  rw [findColumnIdx]
  cases hfind : names.findIdx? fun name => ciEquals name needle with
  | none =>
    have hnone := List.findIdx?_eq_none_iff.mp hfind needle (hnames.mem_iff.mpr hneedle)
    rw [ciEquals, decide_eq_false_iff_not] at hnone
    exact absurd rfl hnone
  | some k =>
    obtain ⟨hk, hequal, -⟩ := List.findIdx?_eq_some_iff_getElem.mp hfind
    have hname : names[k] = needle := packetColumns_distinct.1 _
      (hnames.mem_iff.mp (List.getElem_mem hk)) _ hneedle hequal
    rw [cell, Option.bind_some, selectColumns, List.getElem?_map, List.getElem?_eq_getElem hk, hname]
    rfl

/-- The protocols are those of the column `l4_protocol`. -/
theorem findColumnIdx_protocols : findColumnIdx names (ascii "protocols") = none := by
  rw [findColumnIdx, List.findIdx?_eq_none_iff]
  exact fun name hname => packetColumns_distinct.2 name (hnames.mem_iff.mp hname)

end Columns

/-- A bound statement looks every column up by its name. -/
theorem pcapngWriteBind_columns {db : Database} {options : List (Bytes × List Value)}
    {names : List Bytes} {sqlTypes : List LogicalType} {cfg : PqcapCopyBindData}
    (h : pcapngWriteBind db options names sqlTypes = .ok cfg) : cfg = bindColumns cfg names := by
  rw [pcapngWriteBind, except_bind_eq_ok] at h
  obtain ⟨bind, -, hbound⟩ := h
  simp only at hbound
  split at hbound
  · cases hbound
  · split at hbound
    · cases hbound
    · split at hbound
      · cases hbound
      · rw [← Except.ok.inj hbound]
        rfl

section Cells

variable {db : Database} (hcasts : db.Casts)

include hcasts

theorem parseUInt64_ubigint (v : UInt64) (name : Bytes) :
    parseUInt64 db (.ubigint v) name = .ok v := by
  rw [parseUInt64, hcasts.ubigintUBigInt]
  rfl

/-- A time is parsed when it is not negative, and rejected otherwise. -/
theorem parseUInt64_bigint (v : Int64) (name : Bytes) :
    (0 ≤ v.toInt → parseUInt64 db (.bigint v) name = .ok v.toUInt64) ∧
      (v.toInt < 0 → ∃ error, parseUInt64 db (.bigint v) name = .error error) := by
  constructor
  · intro hnonneg
    have hvalue : UInt64.ofNat v.toInt.toNat = v.toUInt64 := by
      have hnat := toNat_toUInt64 v hnonneg
      rw [← UInt64.toNat_inj, uint64_ofNat_toNat (by have := v.toUInt64.toNat_lt; omega)]
      omega
    rw [parseUInt64, hcasts.ubigintBigInt v hnonneg, ← hvalue]
    rfl
  · intro hnegative
    obtain ⟨message, hcast⟩ := hcasts.ubigintNegative v hnegative
    rw [parseUInt64, hcast]
    exact ⟨_, rfl⟩

/-- An optional text column that shows NULL for the empty text. -/
theorem optionalString_varcharOrNull {row : Row} {idx : Option ℕ} {text : Bytes}
    (hcell : cell row idx = varcharOrNull text) : optionalString db row idx = text := by
  rw [optionalString, presentCell, hcell]
  cases text with
  | nil => rfl
  | cons c rest => exact hcasts.string (c :: rest)

/-- A port column is parsed as the port, and stays absent without one. -/
theorem optionalUInt64_portValue {row : Row} {idx : Option ℕ} {hasPorts : Bool} {port : Int32}
    (hcell : cell row idx = portValue hasPorts port) (hport : 0 ≤ port.toInt) (name : Bytes) :
    (presentCell row idx).isSome = hasPorts ∧ ∃ v, optionalUInt64 db row idx name 0 = .ok v ∧
      v.toUInt32 = if hasPorts then port.toUInt32 else 0 := by
  rw [optionalUInt64, presentCell, hcell]
  cases hasPorts with
  | false => exact ⟨rfl, 0, rfl, rfl⟩
  | true =>
    refine ⟨rfl, UInt64.ofNat port.toInt.toNat, ?_, ?_⟩
    · change parseUInt64 db (.integer port) name = _
      rw [parseUInt64, hcasts.ubigintInteger port hport]
      rfl
    · have hnat := toNat_toUInt32 port hport
      have hbound := port.toUInt32.toNat_lt
      have hword : (UInt64.ofNat port.toInt.toNat).toNat = port.toInt.toNat :=
        uint64_ofNat_toNat (by omega)
      rw [if_pos rfl, ← UInt32.toNat_inj, UInt64.toNat_toUInt32, hword]
      omega

end Cells

/-- The bound columns of a row hold the cells of a packet. -/
structure HoldsPacket (cfg : PqcapCopyBindData) (row : Row) (packet : LightPacket) : Prop where
  timestampMicros : cell row cfg.idxTimestampMicros = .bigint (timestampMicros packet.header)
  interfaceId : cell row cfg.idxInterfaceId = .ubigint packet.header.interfaceId.toUInt64
  dataLink : cell row cfg.idxDataLink = .usmallint packet.header.dataLink
  capturedLength : cell row cfg.idxCapturedLength = .ubigint packet.header.capturedLength.toUInt64
  origLen : cell row cfg.idxOrigLen = .ubigint packet.header.originalLength.toUInt64
  comment : cell row cfg.idxComment = varcharOrNull packet.header.commentText
  srcIp : cell row cfg.idxSrcIp =
    varcharOrNull (l4Fields packet.header.dataLink packet.bytes).srcIp
  dstIp : cell row cfg.idxDstIp =
    varcharOrNull (l4Fields packet.header.dataLink packet.bytes).dstIp
  srcPort : cell row cfg.idxSrcPort =
    portValue (l4Fields packet.header.dataLink packet.bytes).hasPorts
      (l4Fields packet.header.dataLink packet.bytes).srcPort
  dstPort : cell row cfg.idxDstPort =
    portValue (l4Fields packet.header.dataLink packet.bytes).hasPorts
      (l4Fields packet.header.dataLink packet.bytes).dstPort
  protocols : cell row cfg.idxProtocols =
    .varchar (l4Fields packet.header.dataLink packet.bytes).l4Protocol
  payload : cell row cfg.idxPayload = payloadValue packet.bytes

/-- A row of the packet table with its columns in any order holds its packet. -/
theorem holdsPacket_packetRow {names : List Bytes} (hnames : names.Perm packetColumns)
    {cfg : PqcapCopyBindData} (hbound : cfg = bindColumns cfg names) (packet : LightPacket) :
    HoldsPacket cfg (selectColumns packetColumns names (packetRow packet)) packet := by
  have hcell {idx : Option ℕ} {needle : Bytes} (hidx : idx = findColumnIdx names needle)
      (column : ℕ) (hneedle : packetColumns[column]? = some needle) :
      cell (selectColumns packetColumns names (packetRow packet)) idx =
        packetCell (packetRow packet) needle := by
    rw [hidx]
    exact cell_findColumnIdx hnames (List.mem_of_getElem? hneedle) (packetRow packet)
  have hprotocols : cfg.idxProtocols = findColumnIdx names (ascii "l4_protocol") := by
    rw [hbound, bindColumns, findColumnIdx_protocols hnames]
    rfl
  constructor
  · exact hcell (congrArg PqcapCopyBindData.idxTimestampMicros hbound) 0 rfl
  · exact hcell (congrArg PqcapCopyBindData.idxInterfaceId hbound) 1 rfl
  · exact hcell (congrArg PqcapCopyBindData.idxDataLink hbound) 2 rfl
  · exact hcell (congrArg PqcapCopyBindData.idxCapturedLength hbound) 3 rfl
  · exact hcell (congrArg PqcapCopyBindData.idxOrigLen hbound) 4 rfl
  · exact hcell (congrArg PqcapCopyBindData.idxComment hbound) 5 rfl
  · exact hcell (congrArg PqcapCopyBindData.idxSrcIp hbound) 6 rfl
  · exact hcell (congrArg PqcapCopyBindData.idxDstIp hbound) 7 rfl
  · exact hcell (congrArg PqcapCopyBindData.idxSrcPort hbound) 8 rfl
  · exact hcell (congrArg PqcapCopyBindData.idxDstPort hbound) 9 rfl
  · exact hcell hprotocols 10 rfl
  · exact hcell (congrArg PqcapCopyBindData.idxPayload hbound) 11 rfl

section Rows

variable {db : Database} (hcasts : db.Casts) {cfg : PqcapCopyBindData} {row : Row}
  {packet : LightPacket} (hholds : HoldsPacket cfg row packet)

/-- The metadata row that the sink makes of a packet's row. -/
def repackedData (db : Database) (packet : LightPacket) : PacketRowData :=
  { packetFeatures packet with packetBytes := db.getString (.blob packet.bytes) }

include hcasts hholds

/-- The row of a packet with a payload and a time that is not negative is accepted, and the
metadata row keeps the packet's features. -/
theorem sinkRow_ok_of_holdsPacket (htime : 0 ≤ (timestampMicros packet.header).toInt)
    (hpayload : packet.bytes ≠ []) : sinkRow db cfg row = .ok (repackedData db packet) := by
  have hfields := l4Fields_wellFormed packet.header.dataLink packet.bytes
  have hblob : cell row cfg.idxPayload = .blob packet.bytes := by
    rw [hholds.payload, payloadValue, if_neg]
    rwa [List.isEmpty_iff]
  obtain ⟨hsrc, srcPort, hsrcValue, hsrcWord⟩ :=
    optionalUInt64_portValue hcasts hholds.srcPort hfields.srcPort.1 (ascii "src_port")
  obtain ⟨hdst, dstPort, hdstValue, hdstWord⟩ :=
    optionalUInt64_portValue hcasts hholds.dstPort hfields.dstPort.1 (ascii "dst_port")
  rw [sinkRow_eq_ok_iff, hholds.timestampMicros, hholds.origLen, hblob]
  refine ⟨(parseUInt64_bigint hcasts _ _).1 htime, parseUInt64_ubigint hcasts _ _, rfl,
    UInt64.ofNat packet.header.dataLink.toNat, srcPort, dstPort, ?_, ?_, ?_, hsrcValue, hdstValue,
    ?_⟩
  · rw [optionalUInt64, presentCell, hholds.interfaceId]
    exact parseUInt64_ubigint hcasts _ _
  · rw [optionalUInt64, presentCell, hholds.dataLink]
    change parseUInt64 db (.usmallint packet.header.dataLink) _ = _
    rw [parseUInt64, hcasts.ubigintUSmallInt]
    rfl
  · rw [optionalUInt64, presentCell, hholds.capturedLength]
    exact parseUInt64_ubigint hcasts _ _
  · have hlink : (UInt64.ofNat packet.header.dataLink.toNat).toUInt16 = packet.header.dataLink := by
      have hbound := packet.header.dataLink.toNat_lt
      rw [← UInt16.toNat_inj, UInt64.toNat_toUInt16, uint64_ofNat_toNat (by omega)]
      omega
    have hprotocols : optionalString db row cfg.idxProtocols =
        (l4Fields packet.header.dataLink packet.bytes).l4Protocol := by
      rw [optionalString, presentCell, hholds.protocols]
      exact hcasts.string _
    rw [optionalString_varcharOrNull hcasts hholds.comment,
      optionalString_varcharOrNull hcasts hholds.srcIp,
      optionalString_varcharOrNull hcasts hholds.dstIp, hprotocols, hsrc, hdst, hsrcWord, hdstWord,
      hlink]
    rfl

/-- The row of a packet without a payload or with a negative time is rejected. -/
theorem sinkRow_error_of_holdsPacket
    (h : ¬ (0 ≤ (timestampMicros packet.header).toInt ∧ packet.bytes ≠ [])) (data : PacketRowData) :
    sinkRow db cfg row ≠ .ok data := by
  intro hdata
  obtain ⟨htime, -, hpayload, -⟩ := (sinkRow_eq_ok_iff db cfg row data).mp hdata
  refine h ⟨?_, ?_⟩
  · by_contra hnegative
    obtain ⟨error, herror⟩ := (parseUInt64_bigint hcasts (timestampMicros packet.header)
      (ascii "timestamp_micros")).2 (not_le.mp hnegative)
    rw [hholds.timestampMicros, herror] at htime
    cases htime
  · intro hempty
    rw [hholds.payload, hempty] at hpayload
    cases hpayload

end Rows

/-- The call of `light_write_packet` hands over the packet, and reading it back gives its row. -/
structure WritesPacket (packet : LightPacket) (call : LightPacketHeader × Bytes) : Prop where
  interfaceId : call.1.interfaceId = packet.header.interfaceId
  dataLink : call.1.dataLink = packet.header.dataLink
  capturedLength : call.1.capturedLength = packet.header.capturedLength
  originalLength : call.1.originalLength = packet.header.originalLength
  comment : call.1.commentText = packet.header.commentText
  timestamp : timestampMicros call.1 = timestampMicros packet.header
  payload : call.2 = packet.bytes
  row : packetRow ⟨call.1, some call.2⟩ = packetRow packet

/-- The call for the metadata row of a packet hands the packet over exactly when the packet has no
comment, its link type is not replaced, and its payload is the text made of it. -/
theorem writesPacket_repackedData_iff (db : Database) (cfg : PqcapCopyBindData)
    {packet : LightPacket} (hcovers : packet.Covers) (hpayload : packet.bytes ≠ []) :
    WritesPacket packet (writeCall cfg (repackedData db packet)) ↔
      packet.header.commentText = [] ∧ (packet.header.dataLink ≠ 0 ∨ cfg.linktype = 0) ∧
        db.getString (.blob packet.bytes) = packet.bytes := by
  have hlink : (packetHeader cfg (repackedData db packet)).dataLink = packet.header.dataLink ↔
      (packet.header.dataLink ≠ 0 ∨ cfg.linktype = 0) := by
    change (if packet.header.dataLink ≠ 0 then packet.header.dataLink else cfg.linktype) = _ ↔ _
    by_cases hzero : packet.header.dataLink = 0
    · simp [hzero]
    · simp [hzero]
  have htime : timestampMicros (packetHeader cfg (repackedData db packet)) =
      timestampMicros packet.header := by
    rw [timestampMicros_packetHeader]
    exact Int64.toInt64_toUInt64 _
  constructor
  · intro h
    exact ⟨h.comment.symm, hlink.mp h.dataLink, h.payload⟩
  · rintro ⟨hcomment, hkept, htext⟩
    have hlength := hcovers.bytes_length hpayload
    have hcount : UInt32.ofNat packet.bytes.length = packet.header.capturedLength := by
      rw [hlength, UInt32.ofNat_toNat]
    have hcall : writeCall cfg (repackedData db packet) =
        (packetHeader cfg (repackedData db packet), packet.bytes) := by
      rw [writeCall]
      exact congrArg _ htext
    have hcaptured : (packetHeader cfg (repackedData db packet)).capturedLength =
        packet.header.capturedLength := by
      rw [← hcount]
      exact congrArg (fun bytes => UInt32.ofNat bytes.length) htext
    have hinterface : (packetHeader cfg (repackedData db packet)).interfaceId =
        packet.header.interfaceId := UInt32.toUInt32_toUInt64 _
    have horiginal : (packetHeader cfg (repackedData db packet)).originalLength =
        packet.header.originalLength := UInt32.toUInt32_toUInt64 _
    have hnocomment : (packetHeader cfg (repackedData db packet)).commentText =
        packet.header.commentText := hcomment.symm
    rw [hcall]
    refine ⟨hinterface, hlink.mpr hkept, hcaptured, horiginal, hnocomment, htime, rfl, ?_⟩
    have hbytes : (⟨packetHeader cfg (repackedData db packet), some packet.bytes⟩ :
        LightPacket).bytes = packet.bytes := by
      have hpositive : packet.header.capturedLength > 0 :=
        UInt32.lt_iff_toNat_lt.mpr (hcovers.bytes_ne_nil_iff.mp hpayload).1
      rw [LightPacket.bytes]
      simp only [hcaptured]
      rw [if_pos hpositive, ← hlength, List.take_length]
    simp only [packetRow, hbytes, hinterface, hlink.mpr hkept, hcaptured, horiginal, hnocomment,
      htime]

/-- Whatever the order of the columns and the options, the row of a packet with a payload is
written as that packet exactly when the packet has no comment, a link type that is not replaced,
a time that is not negative, and a payload that the database's text of it repeats. -/
theorem repack_writes_packet_iff {db : Database} (hcasts : db.Casts) {light : LightPcapNg}
    (hlight : light.DeliversPackets) {path : Bytes} {file : Option Bytes}
    {packets : List LightPacket} (hread : capturePackets light path file = .ok packets)
    {packet : LightPacket} (hmem : packet ∈ packets) (hpayload : payloadValue packet.bytes ≠ .null)
    {options : List (Bytes × List Value)} {names : List Bytes} {sqlTypes : List LogicalType}
    (hnames : names.Perm packetColumns) {cfg : PqcapCopyBindData}
    (hbind : pcapngWriteBind db options names sqlTypes = .ok cfg) :
    (∃ data, sinkRow db cfg (selectColumns packetColumns names (packetRow packet)) = .ok data ∧
        WritesPacket packet (writeCall cfg data)) ↔
      packet.header.commentText = [] ∧ (packet.header.dataLink ≠ 0 ∨ cfg.linktype = 0) ∧
        0 ≤ (timestampMicros packet.header).toInt ∧
        db.getString (.blob packet.bytes) = packet.bytes := by
  have hholds := holdsPacket_packetRow hnames (pcapngWriteBind_columns hbind) packet
  have hcovers := capturePackets_cover hlight hread packet hmem
  have hsome : packet.bytes ≠ [] := by
    intro hempty
    rw [payloadValue, hempty] at hpayload
    exact hpayload rfl
  have hwrites := writesPacket_repackedData_iff db cfg hcovers hsome
  constructor
  · rintro ⟨data, hdata, hwritten⟩
    have htime : 0 ≤ (timestampMicros packet.header).toInt := by
      by_contra hnegative
      exact sinkRow_error_of_holdsPacket hcasts hholds (fun h => hnegative h.1) data hdata
    rw [sinkRow_ok_of_holdsPacket hcasts hholds htime hsome, Except.ok.injEq] at hdata
    rw [← hdata, hwrites] at hwritten
    exact ⟨hwritten.1, hwritten.2.1, htime, hwritten.2.2⟩
  · rintro ⟨hcomment, hlink, htime, htext⟩
    exact ⟨_, sinkRow_ok_of_holdsPacket hcasts hholds htime hsome,
      hwrites.mpr ⟨hcomment, hlink, htext⟩⟩

/-- The column types that `ReadPqcapPacketsBind` returns. -/
def packetTypes : List LogicalType :=
  [.bigint, .ubigint, .usmallint, .ubigint, .ubigint, .varchar, .varchar, .varchar, .integer,
    .integer, .varchar, .blob]

/-- The statement that copies all columns, without options. -/
theorem bind_packetColumns : pcapngWriteBind memoryDatabase [] packetColumns packetTypes =
    .ok (bindColumns {} packetColumns) := by
  decide +kernel

/-- The packet of the Ethernet capture is written as it is. -/
theorem repack_writes_onePacket :
    (∃ data, sinkRow memoryDatabase (bindColumns {} packetColumns)
          (selectColumns packetColumns packetColumns (packetRow (onePacket 1))) = .ok data ∧
        WritesPacket (onePacket 1) (writeCall (bindColumns {} packetColumns) data)) ↔
      (onePacket 1).header.commentText = [] ∧
        ((onePacket 1).header.dataLink ≠ 0 ∨ (bindColumns {} packetColumns).linktype = 0) ∧
        0 ≤ (timestampMicros (onePacket 1).header).toInt ∧
        memoryDatabase.getString (.blob (onePacket 1).bytes) = (onePacket 1).bytes :=
  repack_writes_packet_iff memoryDatabase_casts blockFiles_deliversPackets
    (oneCapture_gate 1 (.inr rfl)).2.2.1 List.mem_cons_self (by decide +kernel) (.refl _)
    bind_packetColumns

/-- The packet of a capture with link type zero is written with link type one. -/
theorem repack_changes_linktype :
    ¬ ∀ (db : Database) (light : LightPcapNg) (path : Bytes) (file : Option Bytes)
      (packets : List LightPacket) (packet : LightPacket) (options : List (Bytes × List Value))
      (names : List Bytes) (sqlTypes : List LogicalType) (cfg : PqcapCopyBindData), db.Casts →
        light.DeliversPackets → capturePackets light path file = .ok packets →
        packet ∈ packets → payloadValue packet.bytes ≠ .null → names.Perm packetColumns →
        pcapngWriteBind db options names sqlTypes = .ok cfg →
        ∃ data, sinkRow db cfg (selectColumns packetColumns names (packetRow packet)) = .ok data ∧
          WritesPacket packet (writeCall cfg data) := by
  intro h
  obtain ⟨data, hdata, hwritten⟩ := h memoryDatabase blockFiles (memoryDatabase.expandPath [0x61])
    (some (oneCapture 0)) [onePacket 0] (onePacket 0) [] packetColumns packetTypes
    (bindColumns {} packetColumns) memoryDatabase_casts blockFiles_deliversPackets
    (oneCapture_gate 0 (.inl rfl)).2.2.1 List.mem_cons_self (by decide +kernel) (.refl _)
    bind_packetColumns
  have hholds := holdsPacket_packetRow (.refl packetColumns)
    (pcapngWriteBind_columns bind_packetColumns) (onePacket 0)
  rw [sinkRow_ok_of_holdsPacket memoryDatabase_casts hholds (by decide +kernel) (by decide +kernel),
    Except.ok.injEq] at hdata
  have hlink := hwritten.dataLink
  rw [← hdata] at hlink
  exact absurd hlink (by decide +kernel)

section Chunks

variable {db : Database} (hcasts : db.Casts) (light : LightPcapNg) {names : List Bytes}
  (hnames : names.Perm packetColumns) {cfg : PqcapCopyBindData}
  (hbound : cfg = bindColumns cfg names)

include hcasts hnames hbound

end Chunks

end PqcapReader
