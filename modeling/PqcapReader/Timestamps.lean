import PqcapReader.IndexAgreement

/-!
# Timestamps of packets and of index rows

A packet's time is kept in seconds and nanoseconds, shown in microseconds, and indexed in
nanoseconds again. The microseconds of a row reach the header and the index exactly, up to
the width of the index column; the nanoseconds of a captured packet below a microsecond are
cut off.
-/

namespace PqcapReader

open ByteCodec Effects Interleaving

/-- The time of a header in nanoseconds. -/
def LightPacketHeader.nanoseconds (header : LightPacketHeader) : ℤ :=
  header.tvSec.toInt * 10 ^ 9 + header.tvNsec.toInt

/-- The time of a header in nanoseconds, cut to whole microseconds towards zero. -/
def LightPacketHeader.wholeMicroseconds (header : LightPacketHeader) : ℤ :=
  header.nanoseconds - header.tvNsec.toInt.tmod 1000

section Conversions

variable (cfg : PqcapCopyBindData) (data : PacketRowData)

/-- The split into seconds and nanoseconds loses nothing. -/
theorem packetHeader_time :
    (packetHeader cfg data).tvSec.toInt = data.tsMicros.toNat / 1000000 ∧
      (packetHeader cfg data).tvNsec.toInt = data.tsMicros.toNat % 1000000 * 1000 := by
  have hmillion : (1000000 : UInt64).toNat = 1000000 := rfl
  have hthousand : (1000 : UInt64).toNat = 1000 := rfl
  have hbound := data.tsMicros.toNat_lt
  have hsec : (data.tsMicros / 1000000).toNat = data.tsMicros.toNat / 1000000 := by
    rw [UInt64.toNat_div, hmillion]
  have hnsec : (data.tsMicros % 1000000 * 1000).toNat = data.tsMicros.toNat % 1000000 * 1000 := by
    rw [UInt64.toNat_mul, UInt64.toNat_mod, hmillion, hthousand]
    omega
  constructor
  · rw [packetHeader, toInt_toInt64 _ (by omega), hsec]
    norm_num
  · rw [packetHeader, toInt_toInt64 _ (by omega), hnsec]
    norm_num

/-- The header's time is the row's, in nanoseconds. -/
theorem packetHeader_nanoseconds :
    (packetHeader cfg data).nanoseconds = data.tsMicros.toNat * 1000 := by
  obtain ⟨hsec, hnsec⟩ := packetHeader_time cfg data
  rw [LightPacketHeader.nanoseconds, hsec, hnsec]
  omega

/-- The header shows the row's microseconds again. -/
theorem timestampMicros_packetHeader :
    timestampMicros (packetHeader cfg data) = data.tsMicros.toInt64 := by
  obtain ⟨hsec, hnsec⟩ := packetHeader_time cfg data
  have hbound := data.tsMicros.toNat_lt
  have hemod := timestampMicros_emod (packetHeader cfg data)
  rw [hsec, hnsec, Int.mul_tdiv_cancel _ (by decide)] at hemod
  have hnat : (timestampMicros (packetHeader cfg data)).toUInt64.toNat = data.tsMicros.toNat := by
    omega
  rw [← UInt64.toNat_inj.mp hnat, Int64.toInt64_toUInt64]

/-- The index keeps the row's time when its nanoseconds fit. -/
theorem tsNs_toNat (i : ℕ) (loc : PacketLocation) (linktype : UInt16)
    (hfits : data.tsMicros.toNat * 1000 < 2 ^ 64) :
    (indexRow i data loc linktype).tsNs.toNat = data.tsMicros.toNat * 1000 := by
  have hthousand : (1000 : UInt64).toNat = 1000 := rfl
  rw [indexRow, UInt64.toNat_mul, hthousand, Nat.mod_eq_of_lt hfits]

end Conversions

/-- The index keeps the whole microseconds of a captured packet when they fit. -/
theorem tsNs_packetFeatures (packet : LightPacket) (i : ℕ) (loc : PacketLocation)
    (linktype : UInt16) (hnonneg : 0 ≤ packet.header.wholeMicroseconds)
    (hfits : packet.header.wholeMicroseconds < 2 ^ 64) :
    ((indexRow i (packetFeatures packet) loc linktype).tsNs.toNat : ℤ) =
      packet.header.wholeMicroseconds := by
  have hsplit := Int.tmod_add_mul_tdiv packet.header.tvNsec.toInt 1000
  have hemod := timestampMicros_emod packet.header
  have hmicros : packet.header.wholeMicroseconds =
      (packet.header.tvSec.toInt * 1000000 + packet.header.tvNsec.toInt.tdiv 1000) * 1000 := by
    rw [LightPacketHeader.wholeMicroseconds, LightPacketHeader.nanoseconds]
    omega
  have hvalue : ((packetFeatures packet).tsMicros.toNat : ℤ) =
      packet.header.tvSec.toInt * 1000000 + packet.header.tvNsec.toInt.tdiv 1000 := by
    change ((timestampMicros packet.header).toUInt64.toNat : ℤ) = _
    omega
  rw [tsNs_toNat _ i loc linktype (by omega)]
  omega

section Paths

variable {faults : Schedule} {db : Database} {light : LightPcapNg} {world : World}
  (hfaults : NoFaults faults) (hdb : db.WritesParquet) (address : ℕ)

include hfaults hdb

/-- COPY indexes the time of the header that it writes, when the nanoseconds fit. It returns when
the database takes the texts of the rows. -/
theorem copy_timestamps {ι : Type} [DecidableEq ι] {cfg : PqcapCopyBindData}
    {queues : ι → List (List Row)} {trace : List (ι × List Row)}
    {state : PqcapCopyGlobalState light} (outputPath : Bytes) (hmode : cfg.mode = ascii "pqcap")
    (hrun : Runs (pcapngWriteSink db cfg light) queues (pcapngWriteInitializeGlobal cfg light) trace
      state)
    (hlight : light.WritesBlocks cfg.linktype (state.rows.map (writeCall cfg)))
    (hfile : FitsFile (light.content state.writer)) :
    state.writer = writeRows cfg light (light.openWrite cfg.linktype) state.rows ∧
      ((∀ data ∈ state.rows, data.Accepted db) → ∃ after,
        exec (pcapngWriteFinalize faults db cfg light outputPath state address) world =
          (.ok (), after)) ∧
      ∀ after, exec (pcapngWriteFinalize faults db cfg light outputPath state address) world =
          (.ok (), after) →
        ∃ parquet index,
          after.files outputPath = some (pqcapBundle (light.content state.writer) parquet) ∧
          db.readParquet parquet = some index ∧ index.length = state.rows.length ∧
          ∀ (i : ℕ) (data : PacketRowData) (indexed : IndexRow),
            state.rows[i]? = some data → index[i]? = some indexed →
              data.tsMicros.toNat * 1000 < 2 ^ 64 →
                (indexed.tsNs.toNat : ℤ) = (packetHeader cfg data).nanoseconds := by
  have hlength := ((run_aligned hrun hlight).located hfile).1.length_eq
  refine ⟨(run_rows hrun).2, fun haccepts => ?_, fun after hexec => ?_⟩
  · obtain ⟨-, after, -, hexec, -⟩ := exec_finalize_of_run hmode hrun hlight hdb haccepts hfaults
      hfile outputPath address world
    exact ⟨after, hexec⟩
  · obtain ⟨parquet, -, hread, hafter⟩ := exec_pcapngWriteFinalize_success hfaults hdb hmode hexec
    refine ⟨parquet, _, hafter, hread, indexRows_length cfg.linktype hlength, ?_⟩
    intro i data indexed hdata hindexed hfits
    obtain ⟨loc, rfl⟩ := indexRows_eq_some cfg.linktype hdata hindexed
    rw [tsNs_toNat data i loc cfg.linktype hfits, packetHeader_nanoseconds]
    norm_num

/-- Indexing a capture keeps the whole microseconds of its packets, when they fit. -/
theorem embed_timestamps {fs : World → VirtualFileSystem} {pathIn content : Bytes}
    {packets : List LightPacket} {after : World} {count : Int64} (hcasts : db.Casts)
    (hfs : ServesFiles fs) (hfile : FitsFile content)
    (hcontent : world.files (db.expandPath pathIn) = some content)
    (hpackets : capturePackets light (db.expandPath pathIn) (some content) = .ok packets)
    (hsuccess : exec (embedPqcapIndex faults fs db light pathIn address) world =
      (.ok count, after)) :
    ∃ parquet index, after.files (db.expandPath pathIn) = some (pqcapBundle content parquet) ∧
      db.readParquet parquet = some index ∧ index.length = packets.length ∧
        ∀ (i : ℕ) (packet : LightPacket) (indexed : IndexRow),
          packets[i]? = some packet → index[i]? = some indexed →
            0 ≤ packet.header.wholeMicroseconds → packet.header.wholeMicroseconds < 2 ^ 64 →
              (indexed.tsNs.toNat : ℤ) = packet.header.wholeMicroseconds := by
  obtain ⟨hcount, parquet, hbundle, hread⟩ := exec_embedPqcapIndex_success hfaults hdb hcasts hfs
    hfile hcontent hpackets hsuccess
  have hlength : (packets.map packetFeatures).length = (scanPacketLocations content).length := by
    rw [List.length_map, hcount]
  refine ⟨parquet, _, hbundle, hread, ?_, ?_⟩
  · rw [indexRows_length _ hlength, List.length_map]
  · intro i packet indexed hpacket hindexed hnonneg hfits
    have hdata : (packets.map packetFeatures)[i]? = some (packetFeatures packet) := by
      rw [List.getElem?_map, hpacket, Option.map_some]
    obtain ⟨loc, rfl⟩ := indexRows_eq_some _ hdata hindexed
    exact tsNs_packetFeatures packet i loc _ hnonneg hfits

end Paths

/-- On both paths an index row's time is that of its packet's header, up to whole microseconds:
after COPY exactly the header's time when its nanoseconds fit the column, and after indexing a
capture the header's time without the nanoseconds below a microsecond. -/
theorem index_timestamps {faults : Schedule} {db : Database} {light : LightPcapNg} {world : World}
    (hfaults : NoFaults faults) (hdb : db.WritesParquet) (address : ℕ) :
    (∀ {ι : Type} [DecidableEq ι] {cfg : PqcapCopyBindData} {queues : ι → List (List Row)}
        {trace : List (ι × List Row)} {state : PqcapCopyGlobalState light} (outputPath : Bytes),
      cfg.mode = ascii "pqcap" →
      Runs (pcapngWriteSink db cfg light) queues (pcapngWriteInitializeGlobal cfg light) trace
        state →
      light.WritesBlocks cfg.linktype (state.rows.map (writeCall cfg)) →
      FitsFile (light.content state.writer) →
      state.writer = writeRows cfg light (light.openWrite cfg.linktype) state.rows ∧
        ((∀ data ∈ state.rows, data.Accepted db) → ∃ after,
          exec (pcapngWriteFinalize faults db cfg light outputPath state address) world =
            (.ok (), after)) ∧
        ∀ after, exec (pcapngWriteFinalize faults db cfg light outputPath state address) world =
            (.ok (), after) →
          ∃ parquet index,
            after.files outputPath = some (pqcapBundle (light.content state.writer) parquet) ∧
            db.readParquet parquet = some index ∧ index.length = state.rows.length ∧
            ∀ (i : ℕ) (data : PacketRowData) (indexed : IndexRow),
              state.rows[i]? = some data → index[i]? = some indexed →
              data.tsMicros.toNat * 1000 < 2 ^ 64 →
                (indexed.tsNs.toNat : ℤ) = (packetHeader cfg data).nanoseconds) ∧
    ∀ {fs : World → VirtualFileSystem} {pathIn content : Bytes} {packets : List LightPacket}
        {after : World} {count : Int64},
      db.Casts → ServesFiles fs → FitsFile content →
      world.files (db.expandPath pathIn) = some content →
      capturePackets light (db.expandPath pathIn) (some content) = .ok packets →
      exec (embedPqcapIndex faults fs db light pathIn address) world = (.ok count, after) →
      ∃ parquet index,
        after.files (db.expandPath pathIn) = some (pqcapBundle content parquet) ∧
          db.readParquet parquet = some index ∧ index.length = packets.length ∧
          ∀ (i : ℕ) (packet : LightPacket) (indexed : IndexRow),
            packets[i]? = some packet → index[i]? = some indexed →
            0 ≤ packet.header.wholeMicroseconds →
              packet.header.wholeMicroseconds < 2 ^ 64 →
                (indexed.tsNs.toNat : ℤ) = packet.header.wholeMicroseconds :=
  ⟨fun outputPath hmode hrun hlight hfile =>
      copy_timestamps hfaults hdb address outputPath hmode hrun hlight hfile,
    fun hcasts hfs hfile hcontent hpackets hsuccess =>
      embed_timestamps hfaults hdb address hcasts hfs hfile hcontent hpackets hsuccess⟩

/-- The times of the sample run and of the capture of one packet. -/
theorem index_timestamps_sample :
    (∃ after parquet, ∃ index : List IndexRow,
      exec (pcapngWriteFinalize (fun _ => .succeeds) memoryDatabase sampleBind blockFiles
          (ascii "out.pqcapng") (sampleState 4) 0) ⟨fun _ => none, 0⟩ = (.ok (), after) ∧
        after.files (ascii "out.pqcapng") =
          some (pqcapBundle (blockFiles.content (sampleState 4).writer) parquet) ∧
        memoryDatabase.readParquet parquet = some index ∧ index.length = 4 ∧
        ∀ (i : ℕ) (data : PacketRowData) (indexed : IndexRow),
          (sampleState 4).rows[i]? = some data → index[i]? = some indexed →
            data.tsMicros.toNat * 1000 < 2 ^ 64 →
              (indexed.tsNs.toNat : ℤ) = (packetHeader sampleBind data).nanoseconds) ∧
    ∃ after count parquet, ∃ index : List IndexRow,
      exec (embedPqcapIndex (fun _ => .succeeds) localFiles memoryDatabase blockFiles [0x61] 0)
          (worldOf [0x61] (oneCapture 1)) = (.ok count, after) ∧
        after.files [0x61] = some (pqcapBundle (oneCapture 1) parquet) ∧
        memoryDatabase.readParquet parquet = some index ∧ index.length = 1 ∧
        ∀ (i : ℕ) (packet : LightPacket) (indexed : IndexRow),
          [onePacket 1][i]? = some packet → index[i]? = some indexed →
            0 ≤ packet.header.wholeMicroseconds →
              packet.header.wholeMicroseconds < 2 ^ 64 →
                (indexed.tsNs.toNat : ℤ) = packet.header.wholeMicroseconds := by
  have hfaults : NoFaults fun _ => Outcome.succeeds := fun _ => rfl
  obtain ⟨hfile, hplain, hpackets, hscan⟩ := oneCapture_gate 1 (.inr rfl)
  obtain ⟨parquet, after, -, -, hsuccess⟩ := exec_embed_worldOf hfile hplain hpackets
    (congrArg List.length hscan.symm) (onePacket_accepted 1)
  refine ⟨?_, after, Int64.ofNat 1, ?_⟩
  · obtain ⟨-, hreturns, htimes⟩ := (@index_timestamps _ memoryDatabase blockFiles
      ⟨fun _ => none, 0⟩ hfaults memoryDatabase_writesParquet 0).1 (ascii "out.pqcapng") rfl
        runs_sampleTrace sampleRows_written (by decide +kernel)
    obtain ⟨copied, hcopied⟩ := hreturns sampleRows_accepted
    obtain ⟨parquet, index, hindex⟩ := htimes copied hcopied
    exact ⟨copied, parquet, index, hcopied, hindex⟩
  · obtain ⟨parquet, index, hindex⟩ :=
      (index_timestamps hfaults memoryDatabase_writesParquet 0).2 memoryDatabase_casts
        localFiles_serves hfile (worldOf_files [0x61] (oneCapture 1)) hpackets hsuccess
    exact ⟨parquet, index, hsuccess, hindex⟩

/-- The body of an interface description with nanosecond resolution. -/
def nanosecondBody : Bytes :=
  interfaceBody 1 ++ leBytes 2 9 ++ leBytes 2 1 ++ leBytes 4 9 ++ leBytes 4 0

theorem nanosecondBody_aligned : nanosecondBody.length % 4 = 0 := by decide

theorem nanosecondBody_fits : 12 + nanosecondBody.length < 2 ^ 32 := by decide

theorem fitsPacket_abc : FitsPacket (ascii "abc") := by decide

/-- A capture of one packet at one nanosecond: the library's own block, behind an interface whose
ticks are nanoseconds. -/
def nanosecondCapture : Bytes :=
  encodeBlocks (((openingBlocks 1).take 1).map Block.other) ++
    encodeBlocks [.other ⟨⟨1, nanosecondBody, nanosecondBody_aligned, nanosecondBody_fits⟩,
        interfaceType_not_enhanced, interfaceType_not_simple⟩,
      .enhanced (enhancedPacket ⟨0, 0, 1000, 3, 3, 1, none⟩ (ascii "abc") fitsPacket_abc)]

/-- The packet of that capture. -/
def nanosecondPacket : LightPacket := ⟨⟨0, 0, 1, 3, 3, 1, none⟩, some (ascii "abc")⟩

theorem nanosecondCapture_gate :
    FitsFile nanosecondCapture ∧ endsWithFooter nanosecondCapture = false ∧
      capturePackets blockFiles (memoryDatabase.expandPath [0x61]) (some nanosecondCapture) =
        .ok [nanosecondPacket] ∧ scanPacketLocations nanosecondCapture = [⟨88, 3⟩] := by
  decide +kernel

/-- The time of an index row need not be that of the header: a nanosecond is cut off when a
capture is indexed, and COPY multiplies a late time past the width of the column. -/
theorem index_timestamps_differ :
    (¬ ∀ (faults : Schedule) (fs : World → VirtualFileSystem) (db : Database) (light : LightPcapNg)
        (pathIn content : Bytes) (packets : List LightPacket) (world after : World) (address : ℕ)
        (count : Int64), NoFaults faults → db.WritesParquet → db.Casts → ServesFiles fs →
          FitsFile content → world.files (db.expandPath pathIn) = some content →
          capturePackets light (db.expandPath pathIn) (some content) = .ok packets →
          exec (embedPqcapIndex faults fs db light pathIn address) world = (.ok count, after) →
          ∀ (parquet : Bytes) (index : List IndexRow),
            after.files (db.expandPath pathIn) = some (pqcapBundle content parquet) →
            db.readParquet parquet = some index →
            ∀ (i : ℕ) (packet : LightPacket) (indexed : IndexRow), packets[i]? = some packet →
              index[i]? = some indexed →
                (indexed.tsNs.toNat : ℤ) = packet.header.nanoseconds) ∧
      ¬ ∀ (db : Database) (cfg : PqcapCopyBindData) (row : Row) (data : PacketRowData), db.Casts →
        sinkRow db cfg row = .ok data → ∀ (i : ℕ) (loc : PacketLocation),
          ((indexRow i data loc cfg.linktype).tsNs.toNat : ℤ) =
            (packetHeader cfg data).nanoseconds := by
  constructor
  · intro h
    obtain ⟨hfile, hplain, hpackets, hscan⟩ := nanosecondCapture_gate
    obtain ⟨parquet, after, hread, hbundle, hsuccess⟩ := exec_embed_worldOf hfile hplain hpackets
      (congrArg List.length hscan.symm) (fun packet hpacket => by
        rw [List.mem_singleton.mp hpacket]
        rfl)
    have hfaults : NoFaults fun _ => Outcome.succeeds := fun _ => rfl
    have htime := h _ localFiles memoryDatabase blockFiles [0x61] nanosecondCapture
      [nanosecondPacket] _ after 0 _ hfaults memoryDatabase_writesParquet memoryDatabase_casts
      localFiles_serves hfile (worldOf_files [0x61] nanosecondCapture) hpackets hsuccess parquet _
      hbundle hread 0 nanosecondPacket
      (indexRow 0 (packetFeatures nanosecondPacket) ⟨88, 3⟩ 1) rfl (by rw [hscan]; rfl)
    revert htime
    decide +kernel
  · intro h
    have htime := h memoryDatabase sampleBind [.ubigint 0x2000000000000000, .ubigint 0, .blob []]
      { tsMicros := 0x2000000000000000 } memoryDatabase_casts rfl 0 ⟨0, 0⟩
    revert htime
    decide +kernel

end PqcapReader
