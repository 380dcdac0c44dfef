import PqcapReader.ClassicEncoding
import PqcapReader.CrossPlane
import PqcapReader.PacketScan
import PqcapReader.Repack

/-!
# Captures converted by COPY

COPY of `read_pqcap_packets` in mode pqcap reads a capture with one of the two readers,
takes its packets apart into cells, and writes them again with an index. Where the sink
keeps every packet, the index of the new file stands for the packets of the old one: the
bundle that `pqcap_embed_index` makes in place answers the same queries, and a classic
capture is converted record by record.
-/

namespace PqcapReader

open ByteCodec Effects

/-- The rows of packets, with their columns in the order of a statement. -/
def selectedRows (names : List Bytes) (packets : List LightPacket) : List Row :=
  packets.map fun packet => selectColumns packetColumns names (packetRow packet)

/-- What the sink and the index ask of a packet: a payload that the database prints as it is, a time
that is not negative, a link type, and a comment that the database takes. -/
structure Repackable (db : Database) (packet : LightPacket) : Prop where
  time : 0 ≤ (timestampMicros packet.header).toInt
  payload : packet.bytes ≠ []
  text : db.getString (.blob packet.bytes) = packet.bytes
  linktype : packet.header.dataLink ≠ 0
  comment : db.acceptsText packet.header.commentText = true

/-- The metadata rows that packets become. -/
def repackedRows (db : Database) (packets : List LightPacket) : List PacketRowData :=
  packets.map (repackedData db)

/-- The state of the sink after packets. -/
def repackedState (db : Database) (cfg : PqcapCopyBindData) (light : LightPcapNg)
    (packets : List LightPacket) : PqcapCopyGlobalState light :=
  ⟨writeRows cfg light (light.openWrite cfg.linktype) (repackedRows db packets),
    repackedRows db packets⟩

section Copy

variable {db : Database} {cfg : PqcapCopyBindData} (light : LightPcapNg) {names : List Bytes}
  {packets : List LightPacket}

/-- The sink accepts the rows of repackable packets in any chunks. -/
theorem sink_selectedRows (hcasts : db.Casts) (hnames : names.Perm packetColumns)
    (hbound : cfg = bindColumns cfg names) (hpackets : ∀ packet ∈ packets, Repackable db packet)
    {chunks : List (List Row)} (hchunks : chunks.flatten = selectedRows names packets) :
    chunks.foldlM (pcapngWriteSink db cfg light) (pcapngWriteInitializeGlobal cfg light) =
      .ok (repackedState db cfg light packets) := by
  rw [sinkChunks_eq, sinkSteps_eq_ok_iff, hchunks]
  refine ⟨repackedRows db packets, ?_, rfl⟩
  rw [selectedRows, repackedRows, List.forall₂_map_left_iff, List.forall₂_map_right_iff,
    List.forall₂_same]
  intro packet hpacket
  exact sinkRow_ok_of_holdsPacket hcasts (holdsPacket_packetRow hnames hbound packet)
    (hpackets packet hpacket).time (hpackets packet hpacket).payload

/-- The index does not show where the payload of a metadata row came from. -/
theorem indexRows_repackedRows (locs : List PacketLocation) (linktype : UInt16) :
    indexRows (repackedRows db packets) locs linktype =
      indexRows (packets.map packetFeatures) locs linktype := by
  rw [indexRows, indexRows, repackedRows, List.zip_map_left, List.zip_map_left]
  simp only [List.mapIdx_eq_zipIdx_map, List.zipIdx_map, List.map_map]
  rfl

/-- Of a repackable packet its own bytes are written. -/
theorem Repackable.writtenBytes {packet : LightPacket} (h : Repackable db packet) :
    (repackedData db packet).writtenBytes = packet.bytes := by
  have hbytes : (repackedData db packet).packetBytes = packet.bytes := h.text
  rw [PacketRowData.writtenBytes_eq (hbytes ▸ packet.bytes_length_lt), hbytes]

/-- The database takes the texts of its metadata row. -/
theorem Repackable.accepted (hdb : db.WritesParquet) {packet : LightPacket}
    (h : Repackable db packet) : (repackedData db packet).Accepted db :=
  packetFeatures_accepted hdb h.comment

variable {light}

/-- In mode pqcap, finalizing after repackable packets leaves a bundle whose index stands for them. -/
theorem finalize_standsFor {faults : Schedule} (hfaults : NoFaults faults) (hdb : db.WritesParquet)
    (hmode : cfg.mode = ascii "pqcap") (hpackets : ∀ packet ∈ packets, Repackable db packet)
    (hlight : light.WritesBlocks cfg.linktype ((repackedRows db packets).map (writeCall cfg)))
    (hfile : FitsFile (light.content (repackedState db cfg light packets).writer))
    (outputPath : Bytes) (address : ℕ) (world : World) :
    ∃ after file parquet index,
      exec (pcapngWriteFinalize faults db cfg light outputPath
          (repackedState db cfg light packets) address) world = (.ok (), after) ∧
        after.files outputPath = some file ∧
        file = pqcapBundle (light.content (repackedState db cfg light packets).writer) parquet ∧
        db.readParquet parquet = some index ∧ StandsFor file index packets := by
  obtain ⟨others, hopened⟩ := hlight.opened
  have hstart : Aligned (light.content (light.openWrite cfg.linktype)) [] :=
    ⟨others.map Block.other, hopened, packetPayloads_others others⟩
  have haligned := hstart.writeRows hlight fun data hdata => List.mem_map_of_mem hdata
  obtain ⟨hlocated, hbound⟩ := haligned.located hfile
  have haccepts : ∀ data ∈ repackedRows db packets, data.Accepted db := by
    intro data hdata
    obtain ⟨packet, hpacket, rfl⟩ := List.mem_map.mp hdata
    exact (hpackets packet hpacket).accepted hdb
  obtain ⟨parquet, after, -, hread, hafter, hexec⟩ := exec_pcapngWriteFinalize hfaults hdb hmode rfl
    (show (repackedState db cfg light packets).rows.length = _ from hlocated.length_eq)
    (accepts_indexRows cfg.linktype hdb haccepts) outputPath address world
  have hpayloads : (repackedRows db packets).map PacketRowData.writtenBytes =
      packets.map LightPacket.bytes := by
    rw [repackedRows, List.map_map]
    exact List.map_congr_left fun packet hpacket => (hpackets packet hpacket).writtenBytes
  refine ⟨after, _, parquet, _, hexec, hafter, rfl, hread, ?_⟩
  have hrows : (repackedState db cfg light packets).rows = repackedRows db packets := rfl
  rw [hrows, indexRows_repackedRows]
  refine standsFor_indexRows ?_ ?_ (fun packet hpacket => (hpackets packet hpacket).linktype) _
  · rw [← hpayloads, List.forall₂_map_right_iff, pqcapBundle_eq_append]
    exact hlocated.flip.imp fun _ _ h => LocatesPacket.append h _
  · have hfits : (light.content (repackedState db cfg light packets).writer).length < 2 ^ 63 := hfile
    have hcount : (repackedRows db packets).length = packets.length := List.length_map _
    rw [List.nil_append, hcount] at hbound
    exact lt_of_le_of_lt hbound (lt_trans hfits (by decide))

end Copy

/-- On one capture, indexing in place and COPY of the packet table in mode pqcap make bundles that
answer every selection with the same payloads, in an order that is the threads' own for COPY. -/
theorem writers_agree {faults : Schedule} {fs : World → VirtualFileSystem} {db : Database}
    {light : LightPcapNg} (hfaults : NoFaults faults) (hdb : db.WritesParquet) (hcasts : db.Casts)
    (hfs : ServesFiles fs) {pathIn : Bytes} {blocks : List Block}
    (hfile : FitsFile (encodeBlocks blocks)) {world : World}
    (hcontent : world.files (db.expandPath pathIn) = some (encodeBlocks blocks))
    (hplain : endsWithFooter (encodeBlocks blocks) = false)
    (hformat : detectCaptureFormat (db.expandPath pathIn) (some (encodeBlocks blocks)) = .ok .pcapng)
    (hdelivers : light.DeliversPayloads (encodeBlocks blocks)) {packets : List LightPacket}
    (hread : light.packets (encodeBlocks blocks) = some packets)
    (hpackets : ∀ packet ∈ packets, Repackable db packet) {options : List (Bytes × List Value)}
    {names : List Bytes} {sqlTypes : List LogicalType} {cfg : PqcapCopyBindData}
    (hnames : names.Perm packetColumns) (hbind : pcapngWriteBind db options names sqlTypes = .ok cfg)
    (hmode : cfg.mode = ascii "pqcap") {order : List LightPacket} (horder : order.Perm packets)
    {chunks : List (List Row)} (hchunks : chunks.flatten = selectedRows names order)
    (hlight : light.WritesBlocks cfg.linktype ((repackedRows db order).map (writeCall cfg)))
    (hfits : FitsFile (light.content (repackedState db cfg light order).writer))
    (outputPath : Bytes) (address other : ℕ) :
    ∃ embedded copied state file file' parquet parquet' index index',
      exec (embedPqcapIndex faults fs db light pathIn address) world =
          (.ok (Int64.ofNat packets.length), embedded) ∧
        embedded.files (db.expandPath pathIn) = some file ∧
        file = pqcapBundle (encodeBlocks blocks) parquet ∧ db.readParquet parquet = some index ∧
        chunks.foldlM (pcapngWriteSink db cfg light) (pcapngWriteInitializeGlobal cfg light) =
          .ok state ∧
        exec (pcapngWriteFinalize faults db cfg light outputPath state other) world =
          (.ok (), copied) ∧
        copied.files outputPath = some file' ∧
        file' = pqcapBundle (light.content state.writer) parquet' ∧
        db.readParquet parquet' = some index' ∧
        ∀ keep : Row → Bool,
          (((index.filter fun row => keep (indexView row)).map fun row => row.extract file).Perm
            ((index'.filter fun row => keep (indexView row)).map fun row => row.extract file')) ∧
          (order = packets →
            ((index.filter fun row => keep (indexView row)).map fun row => row.extract file) =
              (index'.filter fun row => keep (indexView row)).map fun row => row.extract file') := by
  have hordered : ∀ packet ∈ order, Repackable db packet := fun packet hpacket =>
    hpackets packet (horder.mem_iff.mp hpacket)
  obtain ⟨embedded, file, parquet, index, hembed, hembedded, hbundle, hindex, hstands⟩ :=
    exec_embed_standsFor hfaults hdb hcasts hfs hfile hcontent hplain hformat hdelivers hread
      (fun packet hpacket => (hpackets packet hpacket).linktype)
      (fun packet hpacket => (hpackets packet hpacket).comment) address
  have hsunk := sink_selectedRows light hcasts hnames (pcapngWriteBind_columns hbind)
    hordered hchunks
  obtain ⟨copied, file', parquet', index', hcopy, hcopied, hbundle', hindex', hstands'⟩ :=
    finalize_standsFor hfaults hdb hmode hordered hlight hfits outputPath other world
  refine ⟨embedded, copied, _, file, file', parquet, parquet', index, index', hembed, hembedded,
    hbundle, hindex, hsunk, hcopy, hcopied, hbundle', hindex', fun keep => ⟨?_, ?_⟩⟩
  · rw [hstands.select, hstands'.select]
    exact ((horder.filter _).map _).symm
  · rintro rfl
    rw [hstands.select, hstands'.select]

/-- The capture of one packet is repacked as it is indexed in place. -/
theorem oneBlocks_writers_agree :
    ∃ embedded copied state file file' parquet parquet' index index',
      exec (embedPqcapIndex (fun _ => .succeeds) localFiles memoryDatabase blockFiles [0x61] 0)
          (worldOf [0x61] (encodeBlocks oneBlocks)) = (.ok 1, embedded) ∧
        embedded.files [0x61] = some file ∧
        file = pqcapBundle (encodeBlocks oneBlocks) parquet ∧
        memoryDatabase.readParquet parquet = some index ∧
        [selectedRows packetColumns [onePacket 1]].foldlM (pcapngWriteSink memoryDatabase
            (bindColumns {} packetColumns) blockFiles)
          (pcapngWriteInitializeGlobal (bindColumns {} packetColumns) blockFiles) = .ok state ∧
        exec (pcapngWriteFinalize (fun _ => .succeeds) memoryDatabase (bindColumns {} packetColumns)
            blockFiles [0x62] state 1) (worldOf [0x61] (encodeBlocks oneBlocks)) =
          (.ok (), copied) ∧
        copied.files [0x62] = some file' ∧
        file' = pqcapBundle (blockFiles.content state.writer) parquet' ∧
        memoryDatabase.readParquet parquet' = some index' ∧
        ∀ keep : Row → Bool,
          (((index.filter fun row => keep (indexView row)).map fun row => row.extract file).Perm
            ((index'.filter fun row => keep (indexView row)).map fun row => row.extract file')) ∧
          ([onePacket 1] = [onePacket 1] →
            ((index.filter fun row => keep (indexView row)).map fun row => row.extract file) =
              (index'.filter fun row => keep (indexView row)).map fun row => row.extract file') := by
  obtain ⟨hfile, hplain, -⟩ := oneCapture_gate 1 (.inr rfl)
  rw [← oneBlocks_encode] at hfile hplain
  have hread : blockFiles.packets (encodeBlocks oneBlocks) = some [onePacket 1] := by
    decide +kernel
  have hpackets : ∀ packet ∈ [onePacket 1], Repackable memoryDatabase packet := by
    intro packet hpacket
    rw [List.mem_singleton.mp hpacket]
    exact ⟨by decide +kernel, by decide +kernel, by decide +kernel, by decide, rfl⟩
  exact writers_agree (fun _ => rfl) memoryDatabase_writesParquet memoryDatabase_casts
    localFiles_serves hfile (worldOf_files [0x61] _) hplain (by decide +kernel) oneBlocks_delivers
    hread hpackets (.refl _) bind_packetColumns rfl (.refl _) (List.append_nil _)
    (blockFiles_writesBlocks _ (by decide)) (by decide +kernel) [0x62] 0 1

section Classic

variable {format : ClassicFormat} {reader : ClassicPcapReader}

/-- The reader returns the packets of all records of a whole capture. -/
theorem drain_encodeRecords {records : List ClassicRecord}
    (hswap : reader.swapEndian = format.swapped) (hopen : reader.finished = false)
    (hfile : reader.file = format.encodeRecords records) {fuel : ℕ} (hfuel : records.length < fuel) :
    reader.drain fuel =
      .ok (records.map fun record => record.packet reader.nanosecondTs reader.linktype) := by
  induction records generalizing reader fuel with
  | nil =>
    obtain ⟨fuel, rfl⟩ := Nat.exists_eq_succ_of_ne_zero (Nat.ne_of_gt hfuel)
    have hnil : reader.file = [] := hfile
    rw [ClassicPcapReader.drain, ClassicPcapReader.next_short hopen (by rw [hnil]; decide)]
    rfl
  | cons record records ih =>
    obtain ⟨fuel, rfl⟩ := Nat.exists_eq_succ_of_ne_zero (Nat.ne_of_gt (Nat.zero_lt_of_lt hfuel))
    have hrest := @ih { reader with file := format.encodeRecords records } hswap hopen rfl fuel
      (Nat.lt_of_succ_lt_succ hfuel)
    have hsplit : reader.file = format.encodeRecord record ++ format.encodeRecords records :=
      hfile.trans List.flatMap_cons
    rw [ClassicPcapReader.drain, ClassicPcapReader.next_encodeRecord hswap hopen hsplit]
    simp only [hrest, bind, Except.bind, pure, Except.pure, List.map_cons]

/-- Records take bytes. -/
theorem records_length_le (format : ClassicFormat) (records : List ClassicRecord) :
    records.length ≤ (format.encodeRecords records).length := by
  induction records with
  | nil => exact Nat.zero_le _
  | cons record records ih =>
    have hlength := format.encodeRecord_length record
    rw [ClassicFormat.encodeRecords] at ih ⊢
    rw [List.length_cons, List.flatMap_cons, List.length_append]
    omega

/-- A classic capture has one packet for each record. -/
theorem capturePackets_encode (light : LightPcapNg) (path : Bytes) (format : ClassicFormat)
    (header : ClassicHeader) (records : List ClassicRecord) :
    capturePackets light path (some (format.encode header records)) =
      .ok (records.map fun record => record.packet format.nanosecond header.linktype) := by
  have hmagic : hostWord (format.field 4 format.magicNumber) ≠ pcapngMagic ∧
      (hostWord (format.field 4 format.magicNumber) = pcapMagicLE ∨
        hostWord (format.field 4 format.magicNumber) = pcapMagicBE ∨
        hostWord (format.field 4 format.magicNumber) = pcapNsecMagicLE ∨
        hostWord (format.field 4 format.magicNumber) = pcapNsecMagicBE) := by
    obtain ⟨swapped, nanosecond⟩ := format
    cases swapped <;> cases nanosecond <;> decide
  have hformat : detectCaptureFormat path (some (format.encode header records)) =
      .ok .classicPcap := by
    have hfirst : fread 4 (format.encode header records) = (some (format.field 4 format.magicNumber),
        (format.headerFields header).flatten ++ format.encodeRecords records) := by
      rw [ClassicFormat.encode, List.append_assoc]
      exact ClassicPcapReader.fread_field _ _ (format.field_length 4 _)
    simp only [detectCaptureFormat, hfirst, if_neg hmagic.1, if_pos hmagic.2]
  have hlength := records_length_le format records
  rw [capturePackets, hformat]
  simp only [bind, Except.bind, Option.getD_some, ClassicPcapReader.packets, ClassicFormat.encode,
    ClassicPcapReader.construct_encode]
  exact drain_encodeRecords rfl rfl rfl (Nat.lt_succ_of_le hlength)

/-- The time of a record in whole microseconds. -/
def ClassicRecord.micros (record : ClassicRecord) (nanosecond : Bool) : ℕ :=
  record.seconds.toNat * 1000000 +
    if nanosecond then record.subseconds.toNat / 1000 else record.subseconds.toNat

theorem ClassicRecord.micros_lt (record : ClassicRecord) (nanosecond : Bool) :
    record.micros nanosecond < 2 ^ 53 := by
  have hseconds := record.seconds.toNat_lt
  have hsubseconds := record.subseconds.toNat_lt
  rw [ClassicRecord.micros]
  cases nanosecond with
  | false =>
    simp only [Bool.false_eq_true, if_false]
    omega
  | true =>
    simp only [if_true]
    omega

/-- The packet table shows the time of a record in whole microseconds. -/
theorem ClassicRecord.timestampMicros_packet (record : ClassicRecord) (nanosecond : Bool)
    (linktype : UInt32) :
    (timestampMicros (record.packet nanosecond linktype).header).toUInt64.toNat =
      record.micros nanosecond := by
  have hseconds := record.seconds.toNat_lt
  have hsubseconds := record.subseconds.toNat_lt
  have hbound := record.micros_lt nanosecond
  obtain ⟨nsec, hnsec, hsmall, hmicros⟩ : ∃ nsec,
      record.subseconds.toNat * (if nanosecond then 1 else 1000) = nsec ∧ nsec < 2 ^ 63 ∧
        record.micros nanosecond = record.seconds.toNat * 1000000 + nsec / 1000 := by
    refine ⟨_, rfl, ?_, ?_⟩
    · split <;> omega
    · rw [ClassicRecord.micros]
      split <;> omega
  have hsec : (record.packet nanosecond linktype).header.tvSec.toInt = record.seconds.toNat :=
    Int64.toInt_ofNat_of_lt (by omega)
  have hsub : (record.packet nanosecond linktype).header.tvNsec.toInt = nsec := by
    rw [← hnsec]
    exact Int64.toInt_ofNat_of_lt (hnsec ▸ hsmall)
  have hdiv : (nsec : ℤ).tdiv 1000 = ((nsec / 1000 : ℕ) : ℤ) := (Int.ofNat_tdiv nsec 1000).symm
  have hemod := timestampMicros_emod (record.packet nanosecond linktype).header
  rw [hsec, hsub, hdiv] at hemod
  omega

/-- The index keeps that time in nanoseconds. -/
theorem ClassicRecord.nanoseconds_packet (record : ClassicRecord) (nanosecond : Bool)
    (linktype : UInt32) :
    ((timestampMicros (record.packet nanosecond linktype).header).toUInt64 * 1000).toNat =
      record.micros nanosecond * 1000 := by
  have hbound := record.micros_lt nanosecond
  have hthousand : (1000 : UInt64).toNat = 1000 := rfl
  rw [UInt64.toNat_mul, record.timestampMicros_packet, hthousand, Nat.mod_eq_of_lt (by omega)]

/-- A record's packet has its data, and can be repacked when there is some. -/
theorem ClassicRecord.packet_bytes (record : ClassicRecord) (nanosecond : Bool)
    (linktype : UInt32) : (record.packet nanosecond linktype).bytes = record.data := by
  have hlength : (UInt32.ofNat record.data.length).toNat = record.data.length := by
    rw [UInt32.toNat_ofNat', Nat.mod_eq_of_lt record.fits]
  have hbytes : (record.packet nanosecond linktype).bytes =
      if UInt32.ofNat record.data.length > 0 then
        record.data.take (UInt32.ofNat record.data.length).toNat else [] := rfl
  rw [hbytes, hlength, List.take_length]
  split
  · rfl
  · rename_i hzero
    have hnone := mt UInt32.lt_iff_toNat_lt.mpr hzero
    rw [hlength] at hnone
    exact (List.eq_nil_of_length_eq_zero (Nat.le_zero.mp (not_lt.mp hnone))).symm

theorem ClassicRecord.repackable {db : Database} (hdb : db.WritesParquet) {record : ClassicRecord} {nanosecond : Bool}
    {linktype : UInt32} (hdata : record.data ≠ [])
    (htext : db.getString (.blob record.data) = record.data) (hlink : linktype.toUInt16 ≠ 0) :
    Repackable db (record.packet nanosecond linktype) where
  time := by
    have hmicros := record.timestampMicros_packet nanosecond linktype
    have hbound := record.micros_lt nanosecond
    rw [int64_toInt, if_pos (by omega)]
    exact Int.natCast_nonneg _
  payload := by rwa [record.packet_bytes]
  text := by rwa [record.packet_bytes]
  linktype := hlink
  comment := hdb.printable [] (List.forall_mem_nil _)

/-- A classic capture is converted record by record: COPY of its packet table, which a scan returns
in chunks of any size, makes in mode pqcap, from any chunks, a bundle whose index stands for the
records, with their times in whole microseconds and ranges that hold their data. -/
theorem classic_conversion {faults : Schedule} {db : Database} {light : LightPcapNg}
    (hfaults : NoFaults faults) (hdb : db.WritesParquet) (hcasts : db.Casts)
    (format : ClassicFormat) (header : ClassicHeader) {records : List ClassicRecord}
    (hlink : header.linktype.toUInt16 ≠ 0) (hdata : ∀ record ∈ records, record.data ≠ [])
    (htext : ∀ record ∈ records, db.getString (.blob record.data) = record.data)
    {options : List (Bytes × List Value)} {names : List Bytes} {sqlTypes : List LogicalType}
    {cfg : PqcapCopyBindData} (hnames : names.Perm packetColumns)
    (hbind : pcapngWriteBind db options names sqlTypes = .ok cfg) (hmode : cfg.mode = ascii "pqcap")
    {packets : List LightPacket}
    (hpackets : packets = records.map fun record => record.packet format.nanosecond header.linktype)
    (hlight : light.WritesBlocks cfg.linktype ((repackedRows db packets).map (writeCall cfg)))
    (hfits : FitsFile (light.content (repackedState db cfg light packets).writer))
    (sourcePath outputPath : Bytes) (address : ℕ) (world : World) :
    ∃ table, readPqcapPackets db light sourcePath (some (format.encode header records)) =
        .ok table ∧
      (∀ (vectorSize : ℕ) (outputs : List DataChunk),
        table.length ≤ outputs.length * vectorSize → ∃ reader scanned last,
          readPqcapPacketsInitGlobal light sourcePath (some (format.encode header records)) =
              .ok ⟨reader, false⟩ ∧
            exec (outputs.mapM (readPqcapPacketsFunction db CaptureReader.next vectorSize))
                ⟨reader, false⟩ = (.ok scanned, last) ∧
              (scanned.map DataChunk.rows).flatten = table) ∧
      ∀ chunks : List (List Row), chunks.flatten = table.map (selectColumns packetColumns names) →
        ∃ state after file parquet index,
          chunks.foldlM (pcapngWriteSink db cfg light) (pcapngWriteInitializeGlobal cfg light) =
              .ok state ∧
            exec (pcapngWriteFinalize faults db cfg light outputPath state address) world =
              (.ok (), after) ∧
            after.files outputPath = some file ∧
            file = pqcapBundle (light.content state.writer) parquet ∧
            db.readParquet parquet = some index ∧ StandsFor file index packets ∧
            (index.map fun row => row.tsNs.toNat) =
              records.map (fun record => record.micros format.nanosecond * 1000) ∧
            (index.map fun row => row.extract file) = records.map ClassicRecord.data := by
  have hread := capturePackets_encode light sourcePath format header records
  rw [← hpackets] at hread
  have hrepackable : ∀ packet ∈ packets, Repackable db packet := by
    intro packet hpacket
    rw [hpackets] at hpacket
    obtain ⟨record, hrecord, rfl⟩ := List.mem_map.mp hpacket
    exact ClassicRecord.repackable hdb (hdata record hrecord) (htext record hrecord) hlink
  have htable : readPqcapPackets db light sourcePath (some (format.encode header records)) =
      .ok (packets.map packetRow) :=
    (readPqcapPackets_eq_ok_iff _ _ _ _).mpr ⟨packets, hread, fun packet hpacket =>
      LightPacket.showsComment hdb (hrepackable packet hpacket).comment, rfl⟩
  refine ⟨packets.map packetRow, htable, fun vectorSize outputs henough =>
    readPqcapPackets_eq_chunks htable outputs henough, fun chunks hchunks => ?_⟩
  rw [List.map_map] at hchunks
  have hsunk := sink_selectedRows light hcasts hnames (pcapngWriteBind_columns hbind) hrepackable
    hchunks
  obtain ⟨after, file, parquet, index, hcopy, hafter, hbundle, hindex, hstands⟩ :=
    finalize_standsFor hfaults hdb hmode hrepackable hlight hfits outputPath address world
  refine ⟨_, after, file, parquet, index, hsunk, hcopy, hafter, hbundle, hindex, hstands, ?_, ?_⟩
  · have htimes : (index.map fun row => row.tsNs.toNat) =
        (index.map IndexRow.tsNs).map UInt64.toNat := by
      rw [List.map_map]
      rfl
    rw [htimes, hstands.times, hpackets]
    simp only [List.map_map, Function.comp_def, ClassicRecord.nanoseconds_packet]
  · rw [hstands.payloads, hpackets, List.map_map]
    exact List.map_congr_left fun record _ =>
      record.packet_bytes format.nanosecond header.linktype

/-- Two records in the other byte order, with nanoseconds. -/
def twoRecords : List ClassicRecord :=
  [⟨1, 2000, 60, ascii "first", by decide⟩, ⟨3, 4999, 9, ascii "second", by decide⟩]

/-- The capture of the two records is converted. -/
theorem twoRecords_converted :
    ∃ table, readPqcapPackets memoryDatabase blockFiles [0x61]
        (some ((⟨true, true⟩ : ClassicFormat).encode ⟨2, 4, 0, 0, 65535, 1⟩ twoRecords)) =
          .ok table ∧
      ∀ chunks : List (List Row),
        chunks.flatten = table.map (selectColumns packetColumns packetColumns) →
          ∃ state after file parquet index,
            chunks.foldlM (pcapngWriteSink memoryDatabase (bindColumns {} packetColumns) blockFiles)
                (pcapngWriteInitializeGlobal (bindColumns {} packetColumns) blockFiles) = .ok state ∧
              exec (pcapngWriteFinalize (fun _ => .succeeds) memoryDatabase
                (bindColumns {} packetColumns) blockFiles [0x62] state 0) ⟨fun _ => none, 0⟩ =
                  (.ok (), after) ∧
              after.files [0x62] = some file ∧
              file = pqcapBundle (blockFiles.content state.writer) parquet ∧
              memoryDatabase.readParquet parquet = some index ∧
              StandsFor file index (twoRecords.map fun record => record.packet true 1) ∧
              (index.map fun row => row.tsNs.toNat) =
                twoRecords.map (fun record => record.micros true * 1000) ∧
              (index.map fun row => row.extract file) = twoRecords.map ClassicRecord.data := by
  have hdata : ∀ record ∈ twoRecords, record.data ≠ [] := by decide +kernel
  have hfits : FitsFile (blockFiles.content (repackedState memoryDatabase
      (bindColumns {} packetColumns) blockFiles
      (twoRecords.map fun record => record.packet true 1)).writer) := by decide +kernel
  have hlight : blockFiles.WritesBlocks (bindColumns {} packetColumns).linktype
      ((repackedRows memoryDatabase (twoRecords.map fun record => record.packet true 1)).map
        (writeCall (bindColumns {} packetColumns))) := blockFiles_writesBlocks _ (by decide +kernel)
  have htext : ∀ record ∈ twoRecords,
      memoryDatabase.getString (.blob record.data) = record.data := by decide +kernel
  obtain ⟨table, htable, -, hconverted⟩ := classic_conversion (fun _ => rfl)
    memoryDatabase_writesParquet memoryDatabase_casts ⟨true, true⟩ ⟨2, 4, 0, 0, 65535, 1⟩ (by decide)
    hdata htext (.refl _) bind_packetColumns rfl rfl hlight hfits [0x61] [0x62] 0 ⟨fun _ => none, 0⟩
  exact ⟨table, htable, hconverted⟩

end Classic

end PqcapReader
