import PqcapReader.Pcapng

/-!
# Where the reported packets lie

The walk checks the total length of a block against the file, but takes a packet's size
from a second length field inside the block: the captured length of an enhanced packet
block, the original length of a simple one. A location ends inside its block exactly when
that field leaves room for the block's other fields; then the locations are disjoint,
increasing, and inside the file.
-/

namespace PqcapReader

open ByteCodec CursorWalk

section Fields

variable (data : Bytes) (pos : ℕ)

/-- Where the packet of the block at a position begins. -/
def packetStart : ℕ := if typeField data pos = 6 then pos + 28 else pos + 12

/-- The second length field of the packet block at a position: the captured length of an
enhanced packet block, the original length of a simple one. -/
def packetLengthField : ℕ :=
  if typeField data pos = 6 then leValue (slice data (pos + 20) 4)
  else leValue (slice data (pos + 8) 4)

/-- The bytes that the packet block at a position has for its packet. -/
def packetRoom : ℕ :=
  if typeField data pos = 6 then lengthField data pos - 32 else lengthField data pos - 16

/-- The location that the packet block at a position contributes. -/
def packetLocation : PacketLocation :=
  ⟨UInt64.ofNat (packetStart data pos), UInt64.ofNat (packetLengthField data pos)⟩

/-- The walk that keeps the positions of the packet blocks. -/
def startStep : Option (List ℕ × ℕ) :=
  if Framed data pos then
    some (if PacketHeader data pos then [pos] else [], pos + lengthField data pos)
  else
    none

end Fields

/-- The positions of the packet blocks that the walk over a file meets. -/
def packetStarts (data : Bytes) : List ℕ :=
  Id.run (walk (fun pos => (pure (startStep data pos) : Id _)) (data.length + 1) 0)

section Steps

variable (data : Bytes)

/-- A packet block contributes one location, and no other block contributes any. -/
theorem locationsAt_eq (pos : ℕ) :
    locationsAt data pos = if PacketHeader data pos then [packetLocation data pos] else [] := by
  unfold locationsAt PacketHeader packetLocation packetStart packetLengthField
  by_cases h6 : typeField data pos = 6
  · simp only [h6, true_and, if_true, Nat.reduceEqDiff, false_and, or_false, if_false]
  · simp only [h6, false_and, if_false, false_or]

/-- The scan's step takes the position of a packet block to its location. -/
theorem frameStep_eq_startStep (pos : ℕ) :
    frameStep data pos =
      (startStep data pos).map fun r =>
        (r.1.flatMap fun start => [packetLocation data start], r.2) := by
  unfold frameStep startStep
  rw [locationsAt_eq]
  split
  · split
    · rfl
    · rfl
  · rfl

/-- Everything that a step to a packet block's position can do. -/
theorem startStep_eq_some {pos next : ℕ} {out : List ℕ} (h : startStep data pos = some (out, next)) :
    Framed data pos ∧ next = pos + lengthField data pos ∧
      (out = [] ∨ out = [pos] ∧ PacketHeader data pos) := by
  unfold startStep at h
  split at h
  · rename_i hframed
    rw [Option.some.injEq, Prod.mk.injEq] at h
    obtain ⟨rfl, rfl⟩ := h
    refine ⟨hframed, rfl, ?_⟩
    split
    · exact .inr ⟨rfl, ‹_›⟩
    · exact .inl rfl
  · contradiction

/-- The packet blocks of a run are complete, lie behind its cursor, and do not overlap. -/
theorem starts_ordered {cursor last : ℕ} {starts : List ℕ}
    (h : Walks (startStep data) cursor starts last) :
    (∀ pos ∈ starts, cursor ≤ pos ∧ Framed data pos ∧ PacketHeader data pos) ∧
      starts.Pairwise fun pos pos' => pos + lengthField data pos ≤ pos' := by
  induction h with
  | stop _ => exact ⟨fun pos hpos => absurd hpos List.not_mem_nil, .nil⟩
  | @next cursor next last out outs hstep _ ih =>
    obtain ⟨hframed, rfl, hout⟩ := startStep_eq_some data hstep
    obtain ⟨hbehind, hordered⟩ := ih
    have hrest : ∀ pos ∈ outs, cursor ≤ pos ∧ Framed data pos ∧ PacketHeader data pos :=
      fun pos hpos => ⟨le_trans (Nat.le_add_right _ _) (hbehind pos hpos).1, (hbehind pos hpos).2⟩
    rcases hout with rfl | ⟨rfl, hpacket⟩
    · exact ⟨hrest, hordered⟩
    · rw [List.singleton_append]
      refine ⟨?_, ?_⟩
      · rw [List.forall_mem_cons]
        exact ⟨⟨le_refl _, hframed, hpacket⟩, hrest⟩
      · rw [List.pairwise_cons]
        exact ⟨fun pos hpos => (hbehind pos hpos).1, hordered⟩

end Steps

section Scan

variable {data : Bytes} (hfile : FitsFile data)

include hfile

/-- The scan reports one location for each packet block that the walk meets. -/
theorem scanPacketLocations_eq_map :
    scanPacketLocations data = (packetStarts data).map (packetLocation data) ∧
      ∃ last, Walks (startStep data) 0 (packetStarts data) last := by
  have hfall : ∀ pos out next, True → startStep data pos = some (out, next) →
      True ∧ data.length - next < data.length - pos := by
    intro pos out next _ hstep
    obtain ⟨⟨hheader, hmin, hend⟩, rfl, -⟩ := startStep_eq_some data hstep
    exact ⟨trivial, by omega⟩
  obtain ⟨starts, last, hwalks⟩ := exists_walks (fun _ => True) (fun pos => data.length - pos)
    hfall 0 trivial
  have hstarts : packetStarts data = starts :=
    walk_eq_of_walks (fun _ => True) (fun pos => data.length - pos) hfall hwalks trivial
      (Nat.lt_succ_of_le (Nat.sub_le _ _))
  rw [hstarts]
  refine ⟨?_, last, hwalks⟩
  rw [scanPacketLocations_eq_of_walks data hfile (hwalks.flatMap _ (frameStep_eq_startStep data))]
  exact List.map_eq_flatMap.symm

end Scan

/-- Every reported packet lies inside its own block, before the block's last four bytes; so the
packets are disjoint, in increasing order, and inside the file. -/
structure LocationsInside (data : Bytes) : Prop where
  inside : List.Forall₂ (fun pos loc => pos ≤ loc.offset.toNat ∧
      loc.offset.toNat + loc.size.toNat ≤ pos + lengthField data pos - 4)
    (packetStarts data) (scanPacketLocations data)
  increasing : (scanPacketLocations data).Pairwise fun loc loc' =>
    loc.offset.toNat + loc.size.toNat ≤ loc'.offset.toNat
  inFile : ∀ loc ∈ scanPacketLocations data, loc.offset.toNat + loc.size.toNat ≤ data.length

/-- The numbers of a packet block's location, and where its packet may lie. -/
theorem packetLocation_toNat {data : Bytes} (hfile : FitsFile data) {pos : ℕ}
    (hframed : Framed data pos) (hpacket : PacketHeader data pos) :
    (packetLocation data pos).offset.toNat = packetStart data pos ∧
      (packetLocation data pos).size.toNat = packetLengthField data pos ∧
        pos ≤ packetStart data pos ∧
          packetStart data pos + packetRoom data pos = pos + lengthField data pos - 4 := by
  have hbound : data.length < 2 ^ 63 := hfile
  have hlt (start : ℕ) : leValue (slice data start 4) < 2 ^ 64 :=
    lt_trans (field_lt data start) (by omega)
  obtain ⟨hheader, hmin, hend⟩ := hframed
  rcases hpacket with ⟨htype, hlength⟩ | ⟨htype, hlength⟩
  · simp only [packetLocation, packetStart, packetLengthField, packetRoom, htype, if_true]
    refine ⟨uint64_ofNat_toNat (by omega), uint64_ofNat_toNat (hlt _), by omega, by omega⟩
  · simp only [packetLocation, packetStart, packetLengthField, packetRoom, htype,
      if_neg (show ¬ (3 : ℕ) = 6 by omega)]
    refine ⟨uint64_ofNat_toNat (by omega), uint64_ofNat_toNat (hlt _), by omega, by omega⟩

/-- The reported packets lie inside their blocks exactly when the second length field of every
packet block that the walk meets is at most the room that the block has for its packet. -/
theorem locations_inside_iff {data : Bytes} (hfile : FitsFile data) :
    LocationsInside data ↔
      ∀ pos ∈ packetStarts data, packetLengthField data pos ≤ packetRoom data pos := by
  obtain ⟨hscan, last, hwalks⟩ := scanPacketLocations_eq_map hfile
  obtain ⟨hblocks, hordered⟩ := starts_ordered data hwalks
  have hnumbers (pos : ℕ) (hpos : pos ∈ packetStarts data) :=
    packetLocation_toNat hfile (hblocks pos hpos).2.1 (hblocks pos hpos).2.2
  constructor
  · rintro ⟨hinside, -, -⟩ pos hpos
    rw [hscan, List.forall₂_map_right_iff, List.forall₂_same] at hinside
    obtain ⟨hoffset, hsize, -, hroom⟩ := hnumbers pos hpos
    have hend := (hinside pos hpos).2
    omega
  · intro hfits
    have hinside : ∀ pos ∈ packetStarts data,
        (packetLocation data pos).offset.toNat + (packetLocation data pos).size.toNat ≤
          pos + lengthField data pos - 4 := by
      intro pos hpos
      obtain ⟨hoffset, hsize, -, hroom⟩ := hnumbers pos hpos
      have hfit := hfits pos hpos
      omega
    refine ⟨?_, ?_, ?_⟩
    · rw [hscan, List.forall₂_map_right_iff, List.forall₂_same]
      intro pos hpos
      obtain ⟨hoffset, -, hstart, -⟩ := hnumbers pos hpos
      exact ⟨hoffset ▸ hstart, hinside pos hpos⟩
    · rw [hscan, List.pairwise_map]
      refine hordered.imp_of_mem fun hpos hpos' hbefore => ?_
      obtain ⟨hoffset, -, hstart, -⟩ := hnumbers _ hpos'
      have hend := hinside _ hpos
      omega
    · rw [hscan]
      intro loc hloc
      obtain ⟨pos, hpos, rfl⟩ := List.mem_map.mp hloc
      obtain ⟨-, -, hend⟩ := (hblocks pos hpos).2.1
      have hlocation := hinside pos hpos
      omega

/-- The packets of the four sample blocks lie inside their blocks. -/
theorem sampleBlocks_locations_inside :
    LocationsInside (encodeBlocks sampleBlocks) ↔
      ∀ pos ∈ packetStarts (encodeBlocks sampleBlocks),
        packetLengthField (encodeBlocks sampleBlocks) pos ≤
          packetRoom (encodeBlocks sampleBlocks) pos :=
  locations_inside_iff (by decide +kernel)

/-- A section header, an interface with a snapshot length of four bytes, and a simple packet
block that keeps four bytes of a packet of 100. -/
def snappedCapture : Bytes :=
  encodeBlocks (sampleBlocks.take 1) ++
    (leBytes 4 1 ++ leBytes 4 20 ++ (leBytes 2 1 ++ leBytes 2 0 ++ leBytes 4 4) ++ leBytes 4 20) ++
    (leBytes 4 3 ++ leBytes 4 20 ++ (leBytes 4 100 ++ [1, 2, 3, 4]) ++ leBytes 4 20)

/-- The location of the cut packet ends outside its block. -/
theorem snappedCapture_location_outside :
    ¬ ∀ data : Bytes, FitsFile data → LocationsInside data := by
  intro h
  have hfile : FitsFile snappedCapture := by decide +kernel
  have hfits := (locations_inside_iff hfile).mp (h snappedCapture hfile)
  revert hfits
  decide +kernel

end PqcapReader
