import PqcapReader.LocationBounds
import PqcapReader.Library.Checked

/-!
# The block walk on arbitrary bytes

Whatever the bytes are, the walk ends by its own step, reads only bytes of the file, and
each of its steps moves forward by at least a block header. The least lengths that it asks
of packet blocks keep the reported offsets apart and away from the end of the file.
-/

namespace PqcapReader

open ByteCodec CursorWalk CheckedRun

/-- The step of the walk in the source, on a loaded file. -/
def plainScanStep (data : Bytes) (pos : ℕ) : Option (List PacketLocation × ℕ) :=
  Id.run (scanStep (byteAt data) data.length pos)

/-- The walk with reads that stop it outside the file. -/
def checkedScan (data : Bytes) : Option (List PacketLocation) :=
  walk (scanStep (fun i => data[i]?) data.length) (data.length + 1) 0

/-- The walk over a file is total: it comes to an end of its own, stays inside the file, and
moves forward; the reported offsets are far apart, lie before the last four bytes, and are few. -/
structure ScanTotal (data : Bytes) : Prop where
  ends : ∃ last, Walks (plainScanStep data) 0 (scanPacketLocations data) last
  reads : checkedScan data = some (scanPacketLocations data)
  advances : ∀ pos out next, Reaches (plainScanStep data) 0 pos →
    plainScanStep data pos = some (out, next) → pos + 12 ≤ next ∧ next ≤ data.length
  spaced : (scanPacketLocations data).Pairwise fun loc loc' =>
    loc.offset.toNat + 16 ≤ loc'.offset.toNat
  inside : ∀ loc ∈ scanPacketLocations data, loc.offset.toNat + 4 ≤ data.length
  few : (scanPacketLocations data).length ≤ data.length / 16

section Reads

variable {data : Bytes}

theorem readLE32_safe {pos : ℕ} (h : pos + 4 ≤ data.length) :
    Safe (readLE32 (fun i => data[i]?) pos) (readLE32 (byteAt data) pos) := by
  refine (Safe.read 0 (by omega)).bind ?_
  refine (Safe.read 0 (by omega)).bind ?_
  refine (Safe.read 0 (by omega)).bind ?_
  refine (Safe.read 0 (by omega)).bind ?_
  exact .pure _

variable (hfile : FitsFile data)

include hfile

/-- The guard and the least block lengths cover every field that a step reads. -/
theorem scanStep_safe {pos : ℕ} (hpos : pos ≤ data.length) :
    Safe (scanStep (fun i => data[i]?) data.length pos)
      (scanStep (byteAt data) data.length pos) := by
  have hbound : data.length < 2 ^ 63 := hfile
  have hheader : sizeT (pos + 12) = pos + 12 := sizeT_of_lt (by omega)
  refine Safe.ite (fun hguard => ?_) fun _ => .pure _
  rw [hheader] at hguard
  refine (readLE32_safe (by omega)).bind ((readLE32_safe (by omega)).bind ?_)
  generalize Id.run (readLE32 (byteAt data) pos) = blockType
  generalize Id.run (readLE32 (byteAt data) (pos + 4)) = totalLen
  refine Safe.ite (fun _ => .pure _) fun hstay => ?_
  have htotal := totalLen.toNat_lt
  have hnext : sizeT (pos + totalLen.toNat) = pos + totalLen.toNat := sizeT_of_lt (by omega)
  obtain ⟨-, hend⟩ := not_or.mp hstay
  rw [hnext] at hend
  refine Safe.ite (fun hepb => ?_) fun _ => ?_
  · have hlong : 32 ≤ totalLen.toNat := UInt32.le_iff_toNat_le.mp hepb.2
    exact (readLE32_safe (by omega)).bind (.pure _)
  · refine Safe.ite (fun hspb => ?_) fun _ => .pure _
    have hlong : 16 ≤ totalLen.toNat := UInt32.le_iff_toNat_le.mp hspb.2
    exact (readLE32_safe (by omega)).bind (.pure _)

/-- A step leads from a position in the file to one in the file. -/
theorem scanStep_inside (pos : ℕ) (out : List PacketLocation) (next : ℕ)
    (hpos : pos ≤ data.length) (hstep : plainScanStep data pos = some (out, next)) :
    next ≤ data.length := by
  rw [plainScanStep, scanStep_eq_frameStep data hfile pos hpos] at hstep
  exact (frameStep_advances data pos out next hstep).1

/-- The checked walk returns what the plain walk returns. -/
theorem checkedScan_eq : checkedScan data = some (scanPacketLocations data) :=
  Safe.walk (fun pos => pos ≤ data.length) (fun _ hpos => scanStep_safe hfile hpos)
    (scanStep_inside hfile) _ (Nat.zero_le _)

/-- Every position that the walk comes to lies in the file. -/
theorem reaches_inside {start pos : ℕ} (h : Reaches (plainScanStep data) start pos)
    (hstart : start ≤ data.length) : pos ≤ data.length :=
  h.invariant (fun pos => pos ≤ data.length) (scanStep_inside hfile) hstart

end Reads

/-- The packet of a block starts behind its first twelve bytes and before its last four. -/
theorem PacketHeader.start_bounds {data : Bytes} {pos : ℕ} (h : PacketHeader data pos) :
    pos + 12 ≤ packetStart data pos ∧ packetStart data pos + 4 ≤ pos + lengthField data pos := by
  unfold packetStart
  rcases h with ⟨htype, hlength⟩ | ⟨htype, hlength⟩
  · rw [if_pos htype]
    omega
  · rw [if_neg (by omega)]
    omega

/-- Numbers that are a gap apart and lie in a range are as few as the gaps that fit into it. -/
theorem length_mul_gap_le {values : List ℕ} {gap low high : ℕ} (hrange : low ≤ high)
    (hlow : ∀ value ∈ values, low ≤ value) (hhigh : ∀ value ∈ values, value + gap ≤ high)
    (hspaced : values.Pairwise fun value value' => value + gap ≤ value') :
    low + values.length * gap ≤ high := by
  induction values generalizing low with
  | nil => simpa using hrange
  | cons value rest ih =>
    rw [List.forall_mem_cons] at hlow hhigh
    rw [List.pairwise_cons] at hspaced
    have hrest := ih hhigh.1 hspaced.1 hhigh.2 hspaced.2
    have hfirst := hlow.1
    rw [List.length_cons, Nat.add_mul, Nat.one_mul]
    omega

section Starts

variable {data : Bytes} (hfile : FitsFile data)

include hfile

/-- Where the packet of a block lies in the block, and the block in the file. -/
theorem packetLocation_bounds {pos : ℕ} (hpos : pos ∈ packetStarts data) :
    (packetLocation data pos).offset.toNat = packetStart data pos ∧
      pos + 12 ≤ packetStart data pos ∧
        packetStart data pos + 4 ≤ pos + lengthField data pos ∧
          pos + lengthField data pos ≤ data.length := by
  obtain ⟨-, last, hwalks⟩ := scanPacketLocations_eq_map hfile
  obtain ⟨-, hframed, hpacket⟩ := (starts_ordered data hwalks).1 pos hpos
  obtain ⟨hoffset, -⟩ := packetLocation_toNat hfile hframed hpacket
  obtain ⟨hfront, hback⟩ := hpacket.start_bounds
  exact ⟨hoffset, hfront, hback, hframed.2.2⟩

/-- Between two packets lie the end of one block and the header of another. -/
theorem packetStarts_spaced : (packetStarts data).Pairwise fun pos pos' =>
    packetStart data pos + 16 ≤ packetStart data pos' := by
  obtain ⟨-, last, hwalks⟩ := scanPacketLocations_eq_map hfile
  refine (starts_ordered data hwalks).2.imp_of_mem fun hpos hpos' hbefore => ?_
  obtain ⟨-, -, hback, -⟩ := packetLocation_bounds hfile hpos
  obtain ⟨-, hfront, -, -⟩ := packetLocation_bounds hfile hpos'
  omega

theorem packetStarts_few : (packetStarts data).length ≤ data.length / 16 := by
  have hfew : 12 + ((packetStarts data).map (packetStart data)).length * 16 ≤ data.length + 12 := by
    refine length_mul_gap_le (by omega) ?_ ?_
      (List.pairwise_map.mpr (packetStarts_spaced hfile))
    · intro start hmem
      obtain ⟨pos, hpos, rfl⟩ := List.mem_map.mp hmem
      obtain ⟨-, hfront, -, -⟩ := packetLocation_bounds hfile hpos
      omega
    · intro start hmem
      obtain ⟨pos, hpos, rfl⟩ := List.mem_map.mp hmem
      obtain ⟨-, -, hback, hend⟩ := packetLocation_bounds hfile hpos
      omega
  rw [List.length_map] at hfew
  omega

/-- A step leads from a position that the walk comes to over a whole block. -/
theorem plainScanStep_advances {pos next : ℕ} {out : List PacketLocation}
    (hreach : Reaches (plainScanStep data) 0 pos)
    (hstep : plainScanStep data pos = some (out, next)) :
    pos + 12 ≤ next ∧ next ≤ data.length := by
  have hpos := reaches_inside hfile hreach (Nat.zero_le _)
  rw [plainScanStep, scanStep_eq_frameStep data hfile pos hpos] at hstep
  obtain ⟨⟨-, hmin, hend⟩, -, rfl⟩ := (frameStep_eq_some_iff data pos out next).mp hstep
  omega

/-- The walk is total on every byte string. -/
theorem scan_total : ScanTotal data := by
  have hscan := (scanPacketLocations_eq_map hfile).1
  refine ⟨?_, checkedScan_eq hfile, fun pos out next => plainScanStep_advances hfile, ?_, ?_, ?_⟩
  · obtain ⟨outs, last, hrun⟩ := exists_frame_walk data 0
    rw [scanPacketLocations_eq_of_walks data hfile hrun]
    exact ⟨last, walks_scanStep data hfile hrun⟩
  · rw [hscan, List.pairwise_map]
    refine (packetStarts_spaced hfile).imp_of_mem fun hpos hpos' hgap => ?_
    rw [(packetLocation_bounds hfile hpos).1, (packetLocation_bounds hfile hpos').1]
    exact hgap
  · rw [hscan]
    intro loc hloc
    obtain ⟨pos, hpos, rfl⟩ := List.mem_map.mp hloc
    obtain ⟨hoffset, -, hback, hend⟩ := packetLocation_bounds hfile hpos
    omega
  · rw [hscan, List.length_map]
    exact packetStarts_few hfile

end Starts

/-- A capture of four blocks, two of them with packets. -/
theorem scan_total_sampleBlocks : ScanTotal (encodeBlocks sampleBlocks) :=
  scan_total (by decide +kernel)

end PqcapReader
