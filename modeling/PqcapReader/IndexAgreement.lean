import PqcapReader.EmbedIndex

/-!
# The embedded index against the packet table

The values of a packet's row reach the index through a SELECT by column names, sentinels
in `PacketRowData`, and the tuples of the INSERT. The sentinels for the link type and the
captured length are values that packets have: a link type of zero becomes the default one,
and a captured length of zero becomes the size of the packet's location.
-/

namespace PqcapReader

open ByteCodec Effects

section Views

/-- A text cell in lower case. -/
def lowerCell : Value → Value
  | .varchar text => .varchar (lower text)
  | value => value

/-- The cells of a packet's row that the index repeats, the protocol in lower case. -/
def packetView (row : Row) : Row :=
  [packetCell row (ascii "interface_id"), packetCell row (ascii "data_link"),
    packetCell row (ascii "data_link"), packetCell row (ascii "captured_length"),
    packetCell row (ascii "orig_len"), packetCell row (ascii "comment"),
    packetCell row (ascii "src_ip"), packetCell row (ascii "src_port"),
    packetCell row (ascii "dst_ip"), packetCell row (ascii "dst_port"),
    lowerCell (packetCell row (ascii "l4_protocol"))]

/-- The cell of a text column of the index. -/
def textCellOf (text : Option Bytes) : Value := (text.map Value.varchar).getD .null

/-- The cell of a port column of the index, as the packet table shows ports. -/
def portCellOf (port : Option UInt32) : Value :=
  (port.map fun port => Value.integer port.toInt32).getD .null

/-- The cells of an index row, in the order of `packetView`: interface, link type twice,
captured and original length, comment, source and destination, and protocols. -/
def indexView (indexed : IndexRow) : Row :=
  [.ubigint indexed.interfaceId, .usmallint indexed.dataLink, .usmallint indexed.linktype,
    .ubigint indexed.capturedLength, .ubigint indexed.origLen, textCellOf indexed.comment,
    textCellOf indexed.srcIp, portCellOf indexed.srcPort, textCellOf indexed.dstIp,
    portCellOf indexed.dstPort, .varchar indexed.protocols]

theorem textCellOf_presentText (text : Bytes) : textCellOf (presentText text) = varcharOrNull text := by
  cases text with
  | nil => rfl
  | cons c rest => rfl

/-- The index keeps a port's value and its absence. -/
theorem portCellOf_port (hasPorts : Bool) (port : Int32) :
    portCellOf (if hasPorts then some (if hasPorts then port.toUInt32 else 0) else none) =
      portValue hasPorts port := by
  cases hasPorts with
  | false => rfl
  | true => exact congrArg Value.integer (Int32.toInt32_toUInt32 port)

/-- A label that is not empty is not empty in lower case either. -/
theorem rowProtocols_lower {row : PacketRowData} {label : Bytes} (hlabel : label ≠ [])
    (hrow : row.protocols = lower label) : rowProtocols row = lower label := by
  rw [rowProtocols, hrow, if_neg]
  rw [List.isEmpty_iff, lower, List.map_eq_nil_iff]
  exact hlabel

/-- A packet keeps its link type exactly when it has one. -/
theorem rowLinktype_packetFeatures (packet : LightPacket) {linktype : UInt16}
    (hlinktype : linktype ≠ 0) :
    rowLinktype (packetFeatures packet) linktype = packet.header.dataLink ↔
      packet.header.dataLink ≠ 0 := by
  change (if packet.header.dataLink ≠ 0 then packet.header.dataLink else linktype) = _ ↔ _
  split
  · simp [*]
  · rename_i hzero
    rw [not_not] at hzero
    simp [hzero, hlinktype]

/-- A packet keeps its captured length exactly when it has one or its location has none either. -/
theorem rowCaptured_packetFeatures (packet : LightPacket) (loc : PacketLocation) :
    rowCaptured (packetFeatures packet) loc = packet.header.capturedLength.toUInt64 ↔
      packet.header.capturedLength ≠ 0 ∨ loc.size = 0 := by
  have hzero : packet.header.capturedLength.toUInt64 = 0 ↔ packet.header.capturedLength = 0 := by
    rw [← UInt64.toNat_inj, ← UInt32.toNat_inj, UInt32.toNat_toUInt64]
    rfl
  change (if packet.header.capturedLength.toUInt64 ≠ 0 then packet.header.capturedLength.toUInt64
    else loc.size) = _ ↔ _
  by_cases hcap : packet.header.capturedLength = 0
  · rw [if_neg (not_not.mpr (hzero.mpr hcap)), hzero.mpr hcap]
    simp [hcap]
  · rw [if_pos (mt hzero.mp hcap)]
    simp [hcap]

/-- An index row shows the cells of its packet exactly when neither sentinel stands for a value. -/
theorem indexView_eq_iff (i : ℕ) (packet : LightPacket) (loc : PacketLocation)
    {linktype : UInt16} (hlinktype : linktype ≠ 0) :
    indexView (indexRow i (packetFeatures packet) loc linktype) = packetView (packetRow packet) ↔
      packet.header.dataLink ≠ 0 ∧ (packet.header.capturedLength ≠ 0 ∨ loc.size = 0) := by
  have hpacket : packetView (packetRow packet) =
      let header := packet.header
      let parsed := l4Fields header.dataLink packet.bytes
      [.ubigint header.interfaceId.toUInt64, .usmallint header.dataLink, .usmallint header.dataLink,
        .ubigint header.capturedLength.toUInt64, .ubigint header.originalLength.toUInt64,
        varcharOrNull header.commentText, varcharOrNull parsed.srcIp,
        portValue parsed.hasPorts parsed.srcPort, varcharOrNull parsed.dstIp,
        portValue parsed.hasPorts parsed.dstPort, .varchar (lower parsed.l4Protocol)] := rfl
  have hindex : indexView (indexRow i (packetFeatures packet) loc linktype) =
      let header := packet.header
      let parsed := l4Fields header.dataLink packet.bytes
      [.ubigint header.interfaceId.toUInt64,
        .usmallint (rowLinktype (packetFeatures packet) linktype),
        .usmallint (rowLinktype (packetFeatures packet) linktype),
        .ubigint (rowCaptured (packetFeatures packet) loc), .ubigint header.originalLength.toUInt64,
        textCellOf (presentText header.commentText), textCellOf (presentText parsed.srcIp),
        portCellOf (if parsed.hasPorts then
          some (if parsed.hasPorts then parsed.srcPort.toUInt32 else 0) else none),
        textCellOf (presentText parsed.dstIp),
        portCellOf (if parsed.hasPorts then
          some (if parsed.hasPorts then parsed.dstPort.toUInt32 else 0) else none),
        .varchar (rowProtocols (packetFeatures packet))] := rfl
  have hprotocols : rowProtocols (packetFeatures packet) =
      lower (l4Fields packet.header.dataLink packet.bytes).l4Protocol :=
    rowProtocols_lower (l4Fields_wellFormed _ _).labelled rfl
  rw [hindex, hpacket, hprotocols]
  simp only [textCellOf_presentText, portCellOf_port, List.cons.injEq, Value.usmallint.injEq,
    Value.ubigint.injEq, true_and, and_true]
  rw [rowLinktype_packetFeatures packet hlinktype, rowCaptured_packetFeatures]
  exact ⟨fun h => ⟨h.1, h.2.2⟩, fun h => ⟨h.1, h.1, h.2⟩⟩

/-- The index repeats the cells of all packets exactly when no sentinel stands for a value. -/
theorem indexViews_eq_iff {packets : List LightPacket} {locs : List PacketLocation}
    (hlength : packets.length = locs.length) {linktype : UInt16} (hlinktype : linktype ≠ 0) :
    (indexRows (packets.map packetFeatures) locs linktype).map indexView =
        (packets.map packetRow).map packetView ↔
      ∀ pair ∈ packets.zip locs, pair.1.header.dataLink ≠ 0 ∧
        (pair.1.header.capturedLength ≠ 0 ∨ pair.2.size = 0) := by
  have hindex : (indexRows (packets.map packetFeatures) locs linktype).map indexView =
      (packets.zip locs).map fun pair =>
        indexView (indexRow 0 (packetFeatures pair.1) pair.2 linktype) := by
    rw [indexRows, map_mapIdx, List.zip_map_left, List.mapIdx_eq_iff]
    intro i
    rw [List.getElem?_map, List.getElem?_map, Option.map_map]
    rfl
  have hpackets : (packets.map packetRow).map packetView =
      (packets.zip locs).map fun pair => packetView (packetRow pair.1) := by
    have hfst : (packets.zip locs).map Prod.fst = packets := List.map_fst_zip (le_of_eq hlength)
    conv_lhs => rw [← hfst]
    rw [List.map_map, List.map_map]
    rfl
  rw [hindex, hpackets, List.map_inj_left]
  exact forall₂_congr fun pair _ => indexView_eq_iff 0 pair.1 pair.2 hlinktype

theorem defaultLinktype_ne_zero (rows : List PacketRowData) : defaultLinktype rows ≠ 0 := by
  cases rows with
  | nil => decide
  | cons first rest =>
    change (if first.dataLink ≠ 0 then first.dataLink else 1) ≠ 0
    split
    · assumption
    · decide

end Views

/-- After a successful call the index has one row for each packet, and the rows show the
packets' cells exactly when no packet has link type zero, and none with captured length zero
lies at a location of another size. -/
theorem embedded_index_agrees_iff {faults : Schedule} {fs : World → VirtualFileSystem}
    {db : Database} {light : LightPcapNg} {pathIn content : Bytes} {packets : List LightPacket}
    {world after : World} {address : ℕ} {count : Int64} (hfaults : NoFaults faults)
    (hdb : db.WritesParquet) (hcasts : db.Casts) (hfs : ServesFiles fs) (hfile : FitsFile content)
    (hcontent : world.files (db.expandPath pathIn) = some content)
    (hpackets : capturePackets light (db.expandPath pathIn) (some content) = .ok packets)
    (hsuccess : exec (embedPqcapIndex faults fs db light pathIn address) world =
      (.ok count, after)) :
    ∃ parquet index, after.files (db.expandPath pathIn) = some (pqcapBundle content parquet) ∧
      db.readParquet parquet = some index ∧ index.length = packets.length ∧
        (index.map indexView = (packets.map packetRow).map packetView ↔
          ∀ pair ∈ packets.zip (scanPacketLocations content), pair.1.header.dataLink ≠ 0 ∧
            (pair.1.header.capturedLength ≠ 0 ∨ pair.2.size = 0)) := by
  obtain ⟨hcount, parquet, hbundle, hread⟩ := exec_embedPqcapIndex_success hfaults hdb hcasts hfs
    hfile hcontent hpackets hsuccess
  refine ⟨parquet, _, hbundle, hread, ?_, ?_⟩
  · rw [indexRows_length _ (by rw [List.length_map, hcount]), List.length_map]
  · exact indexViews_eq_iff hcount (defaultLinktype_ne_zero _)

/-- What the gates ask of the capture of one packet. -/
theorem oneCapture_gate (linktype : UInt16) (hlinktype : linktype = 0 ∨ linktype = 1) :
    FitsFile (oneCapture linktype) ∧ endsWithFooter (oneCapture linktype) = false ∧
      capturePackets blockFiles (memoryDatabase.expandPath [0x61]) (some (oneCapture linktype)) =
        .ok [onePacket linktype] ∧ scanPacketLocations (oneCapture linktype) = [⟨76, 3⟩] := by
  rcases hlinktype with rfl | rfl
  · decide +kernel
  · decide +kernel

/-- The index of an Ethernet capture agrees with its packet. -/
theorem oneCapture_index_agrees :
    ∃ after count, exec (embedPqcapIndex (fun _ => .succeeds) localFiles memoryDatabase blockFiles
        [0x61] 0) (worldOf [0x61] (oneCapture 1)) = (.ok count, after) ∧
      ∃ parquet index, after.files [0x61] = some (pqcapBundle (oneCapture 1) parquet) ∧
        memoryDatabase.readParquet parquet = some index ∧ index.length = 1 ∧
          (index.map indexView = ([onePacket 1].map packetRow).map packetView ↔
            ∀ pair ∈ [onePacket 1].zip (scanPacketLocations (oneCapture 1)),
              pair.1.header.dataLink ≠ 0 ∧
                (pair.1.header.capturedLength ≠ 0 ∨ pair.2.size = 0)) := by
  obtain ⟨hfile, hplain, hpackets, hscan⟩ := oneCapture_gate 1 (.inr rfl)
  obtain ⟨parquet, after, -, -, hsuccess⟩ := exec_embed_worldOf hfile hplain hpackets
    (congrArg List.length hscan.symm) (onePacket_accepted 1)
  have hfaults : NoFaults fun _ => Outcome.succeeds := fun _ => rfl
  exact ⟨after, _, hsuccess, embedded_index_agrees_iff hfaults memoryDatabase_writesParquet
    memoryDatabase_casts localFiles_serves hfile (worldOf_files [0x61] (oneCapture 1)) hpackets
    hsuccess⟩

/-- The index of a capture with link type zero shows another link type. -/
theorem oneCapture_index_differs :
    ¬ ∀ (faults : Schedule) (fs : World → VirtualFileSystem) (db : Database) (light : LightPcapNg)
      (pathIn content : Bytes) (packets : List LightPacket) (world after : World) (address : ℕ)
      (count : Int64), NoFaults faults → db.WritesParquet → db.Casts → ServesFiles fs →
        FitsFile content → world.files (db.expandPath pathIn) = some content →
        capturePackets light (db.expandPath pathIn) (some content) = .ok packets →
        exec (embedPqcapIndex faults fs db light pathIn address) world = (.ok count, after) →
        ∀ parquet index, after.files (db.expandPath pathIn) = some (pqcapBundle content parquet) →
          db.readParquet parquet = some index →
            index.map indexView = (packets.map packetRow).map packetView := by
  intro h
  obtain ⟨hfile, hplain, hpackets, hscan⟩ := oneCapture_gate 0 (.inl rfl)
  have hlength : [onePacket 0].length = (scanPacketLocations (oneCapture 0)).length :=
    congrArg List.length hscan.symm
  obtain ⟨parquet, after, hread, hbundle, hsuccess⟩ := exec_embed_worldOf hfile hplain hpackets
    hlength (onePacket_accepted 0)
  have hfaults : NoFaults fun _ => Outcome.succeeds := fun _ => rfl
  have hagrees := h _ localFiles memoryDatabase blockFiles [0x61] (oneCapture 0) [onePacket 0] _ after
    0 _ hfaults memoryDatabase_writesParquet memoryDatabase_casts localFiles_serves hfile
    (worldOf_files [0x61] (oneCapture 0)) hpackets hsuccess parquet _ hbundle hread
  rw [indexViews_eq_iff hlength (defaultLinktype_ne_zero _)] at hagrees
  rw [hscan] at hagrees
  exact (hagrees (onePacket 0, ⟨76, 3⟩) List.mem_cons_self).1 rfl

end PqcapReader
