import PqcapReader.Timestamps

/-!
# Filtering the index, reading the packets

The index stands for the packets of a capture when its rows show the packets' cells and
times, in order, and their offsets and sizes delimit the payloads. Then a query may select
on the index alone and read the payloads of the rows it selects, and it gets what the same
query gets from the packet table.
-/

namespace PqcapReader

open ByteCodec Effects

/-- Two lists that agree on the keys and on the values agree on the values of the selected keys. -/
theorem map_filter_eq_of_maps {A B C D : Type} {left : List A} {right : List B} {key : A → C}
    {key' : B → C} {value : A → D} {value' : B → D} (hkeys : left.map key = right.map key')
    (hvalues : left.map value = right.map value') (keep : C → Bool) :
    (left.filter fun a => keep (key a)).map value =
      (right.filter fun b => keep (key' b)).map value' := by
  induction left generalizing right with
  | nil =>
    rw [List.map_nil, eq_comm, List.map_eq_nil_iff] at hkeys
    rw [hkeys]
    rfl
  | cons a left ih =>
    cases right with
    | nil => cases hkeys
    | cons b right =>
      rw [List.map_cons, List.map_cons, List.cons.injEq] at hkeys hvalues
      rw [List.filter_cons, List.filter_cons, hkeys.1]
      split
      · rw [List.map_cons, List.map_cons, hvalues.1, ih hkeys.2 hvalues.2]
      · exact ih hkeys.2 hvalues.2

/-- The bytes that an index row points at. -/
def IndexRow.extract (row : IndexRow) (file : Bytes) : Bytes :=
  slice file row.offset.toNat row.size.toNat

/-- The index stands for the packets, whose payloads lie in the file. -/
structure StandsFor (file : Bytes) (index : List IndexRow) (packets : List LightPacket) : Prop where
  frames : (index.map fun row => row.frameNumber.toNat) = (List.range packets.length).map (· + 1)
  cells : index.map indexView = (packets.map packetRow).map packetView
  times : index.map IndexRow.tsNs =
    packets.map fun packet => (timestampMicros packet.header).toUInt64 * 1000
  payloads : (index.map fun row => row.extract file) = packets.map LightPacket.bytes

/-- Selecting on the index and reading the selected payloads is selecting on the packet table. -/
theorem StandsFor.select {file : Bytes} {index : List IndexRow} {packets : List LightPacket}
    (h : StandsFor file index packets) (keep : Row → Bool) :
    ((index.filter fun row => keep (indexView row)).map fun row => row.extract file) =
      (packets.filter fun packet => keep (packetView (packetRow packet))).map LightPacket.bytes := by
  refine map_filter_eq_of_maps ?_ h.payloads keep
  rw [h.cells, List.map_map]
  rfl

section Rows

variable {file : Bytes} {packets : List LightPacket} {locs : List PacketLocation}

/-- The default link type does not show where every row has its own. -/
theorem indexRows_linktype {rows : List PacketRowData} (hrows : ∀ row ∈ rows, row.dataLink ≠ 0)
    (linktype other : UInt16) : indexRows rows locs linktype = indexRows rows locs other := by
  refine List.mapIdx_eq_mapIdx_iff.mpr fun i hi => ?_
  have hrow : ((rows.zip locs)[i]).1.dataLink ≠ 0 :=
    hrows _ (List.of_mem_zip (List.getElem_mem hi)).1
  simp only [indexRow, rowLinktype, if_pos hrow]

/-- What the index rows of some items show of each item and its location. -/
theorem map_indexRows {A B : Type} {items : List A} {features : A → PacketRowData}
    {linktype : UInt16} {view : IndexRow → B} {shown : A × PacketLocation → B}
    (h : ∀ i, ∀ pair ∈ items.zip locs,
      view (indexRow i (features pair.1) pair.2 linktype) = shown pair) :
    (indexRows (items.map features) locs linktype).map view = (items.zip locs).map shown := by
  rw [indexRows, map_mapIdx, List.zip_map_left]
  refine List.ext_getElem? fun i => ?_
  rw [List.getElem?_mapIdx, List.getElem?_map, List.getElem?_map, Option.map_map]
  cases hpair : (items.zip locs)[i]? with
  | none => rfl
  | some pair => exact congrArg some (h i pair (List.mem_of_getElem? hpair))

/-- A packet that counts no bytes has none. -/
theorem bytes_of_capturedLength_eq_zero {packet : LightPacket}
    (h : packet.header.capturedLength = 0) : packet.bytes = [] := by
  rw [LightPacket.bytes, h]
  cases packet.data with
  | none => rfl
  | some data => rfl

/-- The rows of packets with link types and of the locations of their payloads stand for them. -/
theorem standsFor_indexRows
    (hlocated : List.Forall₂ (LocatesPacket file) locs (packets.map LightPacket.bytes))
    (hcount : packets.length < 2 ^ 64) (hlinks : ∀ packet ∈ packets, packet.header.dataLink ≠ 0)
    (linktype : UInt16) :
    StandsFor file (indexRows (packets.map packetFeatures) locs linktype) packets := by
  have hlength : packets.length = locs.length := by
    rw [hlocated.length_eq, List.length_map]
  have hpairs : ∀ pair ∈ packets.zip locs, LocatesPacket file pair.2 pair.1.bytes := by
    rw [List.forall₂_map_right_iff] at hlocated
    exact fun pair hpair => (List.forall₂_iff_zip.mp hlocated.flip).2 hpair
  have hfst : (packets.zip locs).map Prod.fst = packets := List.map_fst_zip (le_of_eq hlength)
  have hrows : ∀ row ∈ packets.map packetFeatures, row.dataLink ≠ 0 := by
    rintro row hrow
    obtain ⟨packet, hpacket, rfl⟩ := List.mem_map.mp hrow
    exact hlinks packet hpacket
  rw [indexRows_linktype hrows linktype 1]
  constructor
  · rw [indexRows, map_mapIdx]
    refine List.ext_getElem ?_ fun i hi _ => ?_
    · simp [hlength]
    · have hbound : i < packets.length := by
        simpa [hlength] using hi
      rw [List.getElem_mapIdx, List.getElem_map, List.getElem_range, indexRow]
      exact uint64_ofNat_toNat (by omega)
  · refine (indexViews_eq_iff hlength (by decide)).mpr fun pair hpair => ?_
    obtain ⟨hpacket, -⟩ := List.of_mem_zip hpair
    refine ⟨hlinks pair.1 hpacket, ?_⟩
    by_cases hcaptured : pair.1.header.capturedLength = 0
    · obtain ⟨hsize, -⟩ := hpairs pair hpair
      rw [bytes_of_capturedLength_eq_zero hcaptured, List.length_nil] at hsize
      exact .inr (UInt64.toNat_inj.mp hsize)
    · exact .inl hcaptured
  · have htimes : (indexRows (packets.map packetFeatures) locs 1).map IndexRow.tsNs =
        (packets.zip locs).map fun pair => (timestampMicros pair.1.header).toUInt64 * 1000 :=
      map_indexRows fun _ _ _ => rfl
    rw [htimes]
    conv_rhs => rw [← hfst, List.map_map]
    rfl
  · have hextracts : ((indexRows (packets.map packetFeatures) locs 1).map fun row =>
        row.extract file) =
          (packets.zip locs).map fun pair => slice file pair.2.offset.toNat pair.2.size.toNat :=
      map_indexRows fun _ _ _ => rfl
    rw [hextracts]
    conv_rhs => rw [← hfst, List.map_map]
    exact List.map_congr_left fun pair hpair => (hpairs pair hpair).2.2

end Rows

/-- The library returns the packets of a file of well-formed blocks, in order. -/
def LightPcapNg.DeliversPayloads (light : LightPcapNg) (content : Bytes) : Prop :=
  ∀ blocks packets, content = encodeBlocks blocks → light.packets content = some packets →
    packets.map LightPacket.bytes = packetPayloads blocks

/-- The blocks' packets are located in the blocks, and in the bundle that begins with them. -/
theorem located_in_bundle {blocks : List Block} (hfile : FitsFile (encodeBlocks blocks))
    (parquet : Bytes) :
    List.Forall₂ (LocatesPacket (pqcapBundle (encodeBlocks blocks) parquet))
      (scanPacketLocations (encodeBlocks blocks)) (packetPayloads blocks) := by
  have hlocated := packetLocations_locate [] blocks hfile
  rw [scan_encodeBlocks blocks hfile, pqcapBundle_eq_append]
  exact hlocated.imp fun _ _ h => h.append _

/-- The packet table of a pcapng capture holds what the library returns. -/
theorem capturePackets_pcapng {light : LightPcapNg} {path content : Bytes}
    {packets : List LightPacket} (hformat : detectCaptureFormat path (some content) = .ok .pcapng)
    (hpackets : light.packets content = some packets) :
    capturePackets light path (some content) = .ok packets := by
  rw [capturePackets, hformat]
  simp only [bind, Except.bind, Option.getD_some, hpackets]

/-- The library returns as many packets as the scan finds. -/
theorem packets_counted {light : LightPcapNg} {blocks : List Block} {packets : List LightPacket}
    (hfile : FitsFile (encodeBlocks blocks)) (hlight : light.DeliversPayloads (encodeBlocks blocks))
    (hpackets : light.packets (encodeBlocks blocks) = some packets) :
    packets.length = (scanPacketLocations (encodeBlocks blocks)).length ∧
      packets.length < 2 ^ 64 := by
  have hcount : packets.length = (scanPacketLocations (encodeBlocks blocks)).length := by
    rw [(located_in_bundle hfile []).length_eq, ← hlight blocks packets rfl hpackets,
      List.length_map]
  have hlength := packetLocations_length_le 0 blocks
  have hfits : (encodeBlocks blocks).length < 2 ^ 63 := hfile
  refine ⟨hcount, ?_⟩
  rw [scan_encodeBlocks blocks hfile] at hcount
  omega

section Embedded

variable {faults : Schedule} {fs : World → VirtualFileSystem} {db : Database} {light : LightPcapNg}
  (hfaults : NoFaults faults) (hdb : db.WritesParquet) (hcasts : db.Casts) (hfs : ServesFiles fs)
  {pathIn : Bytes} {blocks : List Block} (hfile : FitsFile (encodeBlocks blocks)) {world : World}
  (hcontent : world.files (db.expandPath pathIn) = some (encodeBlocks blocks))
  (hplain : endsWithFooter (encodeBlocks blocks) = false)
  (hformat : detectCaptureFormat (db.expandPath pathIn) (some (encodeBlocks blocks)) = .ok .pcapng)
  (hlight : light.DeliversPayloads (encodeBlocks blocks)) {packets : List LightPacket}
  (hpackets : light.packets (encodeBlocks blocks) = some packets)
  (hlinks : ∀ packet ∈ packets, packet.header.dataLink ≠ 0)
  (haccepts : ∀ packet ∈ packets, db.acceptsText packet.header.commentText = true)

include hfaults hdb hcasts hfs hfile hcontent hplain hformat hlight hpackets hlinks haccepts

/-- On a pcapng capture of well-formed blocks without a footer, whose packets have link types and
comments that the database takes, `pqcap_embed_index` succeeds, and its index stands for the
packets. -/
theorem exec_embed_standsFor (address : ℕ) :
    ∃ after file parquet index,
      exec (embedPqcapIndex faults fs db light pathIn address) world =
          (.ok (Int64.ofNat packets.length), after) ∧
        after.files (db.expandPath pathIn) = some file ∧
        file = pqcapBundle (encodeBlocks blocks) parquet ∧ db.readParquet parquet = some index ∧
        StandsFor file index packets := by
  have hpayloads := hlight blocks packets rfl hpackets
  have hread := capturePackets_pcapng hformat hpackets
  obtain ⟨hcount, hbound⟩ := packets_counted hfile hlight hpackets
  obtain ⟨parquet, after, hindex, hbundle, hexec⟩ := exec_embedPqcapIndex_ok hfaults hdb hcasts hfs
    hfile hcontent hplain hread hcount haccepts address
  exact ⟨after, _, parquet, _, hexec, hbundle, rfl, hindex,
    standsFor_indexRows (hpayloads ▸ located_in_bundle hfile parquet) hbound hlinks _⟩

/-- A query that selects on the index that `pqcap_embed_index` has embedded, and reads the selected
ranges of the bundle, gets the payloads that it gets from the packet table of the capture. -/
theorem embedded_index_selects (address : ℕ) :
    ∃ after file parquet index,
      exec (embedPqcapIndex faults fs db light pathIn address) world =
          (.ok (Int64.ofNat packets.length), after) ∧
        after.files (db.expandPath pathIn) = some file ∧
        file = pqcapBundle (encodeBlocks blocks) parquet ∧ db.readParquet parquet = some index ∧
        StandsFor file index packets ∧
        ∀ keep : Row → Bool,
          ((index.filter fun row => keep (indexView row)).map fun row => row.extract file) =
            (packets.filter fun packet => keep (packetView (packetRow packet))).map
              LightPacket.bytes := by
  obtain ⟨after, file, parquet, index, hexec, hafter, hbundle, hread, hstands⟩ :=
    exec_embed_standsFor hfaults hdb hcasts hfs hfile hcontent hplain hformat hlight hpackets hlinks
      haccepts address
  exact ⟨after, file, parquet, index, hexec, hafter, hbundle, hread, hstands, hstands.select⟩

end Embedded

/-- The blocks of the capture of one packet. -/
def oneBlocks : List Block := (openingBlocks 1).map Block.other ++
  [.enhanced (enhancedPacket (onePacket 1).header (ascii "abc") (by decide))]

theorem oneBlocks_encode : encodeBlocks oneBlocks = oneCapture 1 := by decide +kernel

/-- The library returns the packet of that capture, whatever blocks one takes it to consist of. -/
theorem oneBlocks_delivers : blockFiles.DeliversPayloads (encodeBlocks oneBlocks) := by
  intro blocks packets hblocks hpackets
  obtain ⟨hfile, -, -, hscan⟩ := oneCapture_gate 1 (.inr rfl)
  rw [oneBlocks_encode] at hblocks hpackets
  have hread : blockFiles.packets (oneCapture 1) = some [onePacket 1] := by decide +kernel
  have hlocated := located_in_bundle (hblocks ▸ hfile) []
  rw [← hblocks, hscan, List.forall₂_cons_left_iff] at hlocated
  obtain ⟨payload, rest, ⟨-, -, hslice⟩, hrest, hpayloads⟩ := hlocated
  obtain rfl : [onePacket 1] = packets := Option.some.inj (hread.symm.trans hpackets)
  rw [hpayloads, List.forall₂_nil_left_iff.mp hrest, ← hslice]
  decide +kernel

/-- The index of that capture stands for its packet. -/
theorem oneBlocks_index_selects :
    ∃ after file parquet index,
      exec (embedPqcapIndex (fun _ => .succeeds) localFiles memoryDatabase blockFiles [0x61] 0)
          (worldOf [0x61] (encodeBlocks oneBlocks)) = (.ok 1, after) ∧
        after.files [0x61] = some file ∧ file = pqcapBundle (encodeBlocks oneBlocks) parquet ∧
        memoryDatabase.readParquet parquet = some index ∧ StandsFor file index [onePacket 1] ∧
        ∀ keep : Row → Bool,
          ((index.filter fun row => keep (indexView row)).map fun row => row.extract file) =
            ([onePacket 1].filter fun packet => keep (packetView (packetRow packet))).map
              LightPacket.bytes := by
  obtain ⟨hfile, hplain, -⟩ := oneCapture_gate 1 (.inr rfl)
  rw [← oneBlocks_encode] at hfile hplain
  have hpackets : blockFiles.packets (encodeBlocks oneBlocks) = some [onePacket 1] := by
    decide +kernel
  exact embedded_index_selects (fun _ => rfl) memoryDatabase_writesParquet memoryDatabase_casts
    localFiles_serves hfile (worldOf_files [0x61] _) hplain (by decide +kernel) oneBlocks_delivers
    hpackets (by decide) (onePacket_accepted 1) 0

end PqcapReader
