import PqcapReader.Bundle
import PqcapReader.Pcapng

/-!
# The packets of a capture and of its bundle

The walk over a bundle first repeats the walk over the capture. Where the latter stopped
depends on the length of the file, so in the longer file it may go on: into a last block
that the appended bytes complete, or into bytes read as a block header. Which of these
happens is decided by the end of the capture and the size of the Parquet file. Only a block
that ends inside the Parquet file leaves the rest to the bytes that lie there.
-/

namespace PqcapReader

open ByteCodec CursorWalk

/-- `EnsurePlainCapture`. -/
def ensurePlainCapture (fs : VirtualFileSystem) (path : Bytes) : Except Exception Unit := do
  match ← fs path fileFlagsRead with
  | none => .error (.ioException (ascii "pqcap_embed_index: could not open " ++ path))
  | some handle =>
    let fileSize := handle.getFileSize.toUInt64
    if fileSize < pqcapFooterBlockSize then
      pure ()
    else do
      let tail ← handle.read pqcapFooterBlockSize.toInt64 (fileSize - pqcapFooterBlockSize)
      match parseFooterLocator tail with
      | some _ =>
        .error (.invalidInputException
          (ascii "pqcap_embed_index: capture already contains pqcap metadata: " ++ path))
      | none => pure ()

/-- `EnsurePlainCapture` rejects exactly the files that end with a footer block. -/
theorem ensurePlainCapture_eq {fs : VirtualFileSystem} {path content : Bytes} {handle : FileHandle}
    (hopen : fs path fileFlagsRead = .ok (some handle)) (hholds : handle.Holds content) :
    ensurePlainCapture fs path =
      if endsWithFooter content then
        .error (.invalidInputException
          (ascii "pqcap_embed_index: capture already contains pqcap metadata: " ++ path))
      else
        .ok () := by
  obtain ⟨hsmall, hread⟩ := hholds.read_tail
  simp only [ensurePlainCapture, hopen, bind, Except.bind]
  by_cases hlong : 44 ≤ content.length
  · rw [if_neg (mt hsmall.mp (by omega)), hread hlong]
    simp only [endsWithFooter, hlong, decide_true, Bool.true_and]
    cases parseFooterLocator (slice content (content.length - 44) 44) with
    | none => rfl
    | some loc => rfl
  · rw [if_pos (hsmall.mpr (by omega))]
    simp only [endsWithFooter, hlong, decide_false, Bool.false_and]
    rfl

section Extension

variable (data more : Bytes)

/-- Bytes appended to a file change no field of a block that lies inside it. -/
theorem fields_append (pos : ℕ) (hheader : pos + 8 ≤ data.length) :
    typeField (data ++ more) pos = typeField data pos ∧
      lengthField (data ++ more) pos = lengthField data pos := by
  constructor
  · rw [typeField, typeField, slice_append_left _ _ _ _ (by omega)]
  · rw [lengthField, lengthField, slice_append_left _ _ _ _ (by omega)]

/-- A step of the walk over a file is a step of the walk over every longer file. -/
theorem frameStep_append (pos : ℕ) (out : List PacketLocation) (next : ℕ)
    (h : frameStep data pos = some (out, next)) :
    frameStep (data ++ more) pos = some (out, next) := by
  rw [frameStep_eq_some_iff] at h ⊢
  obtain ⟨⟨hheader, hmin, hend⟩, rfl, rfl⟩ := h
  obtain ⟨htype, hlength⟩ := fields_append data more pos (by omega)
  refine ⟨⟨?_, ?_, ?_⟩, ?_, ?_⟩
  · rw [List.length_append]
    omega
  · omega
  · rw [hlength, List.length_append]
    omega
  · unfold locationsAt
    rw [htype, hlength]
    split
    · rw [slice_append_left _ _ _ _ (by omega)]
    · split
      · rw [slice_append_left _ _ _ _ (by omega)]
      · rfl
  · rw [hlength]

end Extension

section Behind

variable (front data : Bytes)

/-- Bytes in front of a file change no field of its blocks. -/
theorem fields_behind (pos : ℕ) :
    typeField (front ++ data) (front.length + pos) = typeField data pos ∧
      lengthField (front ++ data) (front.length + pos) = lengthField data pos := by
  constructor
  · rw [typeField, typeField, slice_append_right]
  · rw [lengthField, lengthField, Nat.add_assoc, slice_append_right]

/-- They only move its blocks. -/
theorem framed_behind (pos : ℕ) :
    Framed (front ++ data) (front.length + pos) ↔ Framed data pos := by
  unfold Framed
  rw [(fields_behind front data pos).2, List.length_append]
  omega

/-- A step behind them is the step over the file. -/
theorem frameStep_behind (pos : ℕ) :
    (frameStep (front ++ data) (front.length + pos)).map Prod.snd =
      (frameStep data pos).map fun result => front.length + result.2 := by
  by_cases hframed : Framed data pos
  · rw [frameStep, frameStep, if_pos hframed, if_pos ((framed_behind front data pos).mpr hframed),
      Option.map_some, Option.map_some, (fields_behind front data pos).2, Nat.add_assoc]
  · rw [frameStep, frameStep, if_neg hframed, if_neg (mt (framed_behind front data pos).mp hframed)]
    rfl

end Behind

/-- The walk over a file stops at the position. -/
def StopsAt (data : Bytes) (pos : ℕ) : Prop := Reaches (frameStep data) 0 pos ∧ ¬ Framed data pos

/-- A walk over a file stops inside it. -/
theorem StopsAt.le_length {data : Bytes} {stop : ℕ} (h : StopsAt data stop) :
    stop ≤ data.length :=
  h.1.invariant (fun pos => pos ≤ data.length)
    (fun pos out next _ hstep => (frameStep_advances data pos out next hstep).1) (Nat.zero_le _)

/-- The walk from a position meets a complete packet block. -/
def MeetsPacket (data : Bytes) (start : ℕ) : Prop :=
  ∃ pos, Reaches (frameStep data) start pos ∧ Framed data pos ∧ PacketHeader data pos

/-- The walk meets a packet in the block it starts with, or behind it. -/
theorem meetsPacket_iff (data : Bytes) (start : ℕ) :
    MeetsPacket data start ↔ Framed data start ∧
      (PacketHeader data start ∨ MeetsPacket data (start + lengthField data start)) := by
  constructor
  · rintro ⟨pos, hreach, hframed, hpacket⟩
    cases hreach with
    | here => exact ⟨hframed, .inl hpacket⟩
    | next hstep hreach =>
      obtain ⟨hstart, -, rfl⟩ := (frameStep_eq_some_iff data start _ _).mp hstep
      exact ⟨hstart, .inr ⟨pos, hreach, hframed, hpacket⟩⟩
  · rintro ⟨hstart, hpacket | ⟨pos, hreach, hframed, hpacket⟩⟩
    · exact ⟨start, .here start, hstart, hpacket⟩
    · have hstep := (frameStep_eq_some_iff data start _ _).mpr ⟨hstart, rfl, rfl⟩
      exact ⟨pos, .next hstep hreach, hframed, hpacket⟩

/-- Bytes in front of a file do not matter to a walk that starts behind them. -/
theorem meetsPacket_behind (front data : Bytes) (start : ℕ) :
    MeetsPacket (front ++ data) (front.length + start) ↔ MeetsPacket data start := by
  have hpackets : ∀ pos, PacketHeader (front ++ data) (front.length + pos) ↔
      PacketHeader data pos := fun pos => by
    rw [PacketHeader, PacketHeader, (fields_behind front data pos).1,
      (fields_behind front data pos).2]
  constructor
  · rintro ⟨_, hreach, hframed, hpacket⟩
    obtain ⟨pos, rfl, hreached⟩ := hreach.lift (front.length + ·) (frameStep_behind front data)
    exact ⟨pos, hreached, (framed_behind front data pos).mp hframed, (hpackets pos).mp hpacket⟩
  · rintro ⟨pos, hreach, hframed, hpacket⟩
    exact ⟨front.length + pos, hreach.map (front.length + ·) (frameStep_behind front data),
      (framed_behind front data pos).mpr hframed, (hpackets pos).mpr hpacket⟩

/-- A run of the walk collects nothing exactly when it meets no packet block. -/
theorem walks_eq_nil_iff {data : Bytes} {start last : ℕ} {outs : List PacketLocation}
    (h : Walks (frameStep data) start outs last) : outs = [] ↔ ¬ MeetsPacket data start := by
  rw [h.outs_eq_nil_iff]
  constructor
  · rintro hnone ⟨pos, hreach, hframed, hpacket⟩
    have hstep := (frameStep_eq_some_iff data pos _ _).mpr ⟨hframed, rfl, rfl⟩
    exact (locationsAt_eq_nil_iff data pos).mp (hnone pos _ _ hreach hstep) hpacket
  · intro hnone pos out next hreach hstep
    obtain ⟨hframed, rfl, -⟩ := (frameStep_eq_some_iff data pos out next).mp hstep
    exact (locationsAt_eq_nil_iff data pos).mpr fun hpacket => hnone ⟨pos, hreach, hframed, hpacket⟩

/-- The scan of an extended file is the scan of the file followed by what the walk collects
from where it stopped. -/
theorem exists_scan_append {data more : Bytes} (hfile : FitsFile (data ++ more)) {stop : ℕ}
    (hstop : StopsAt data stop) :
    ∃ extra last, Walks (frameStep (data ++ more)) stop extra last ∧
      scanPacketLocations (data ++ more) = scanPacketLocations data ++ extra := by
  have hshort : FitsFile data := by
    have hbound : (data ++ more).length < 2 ^ 63 := hfile
    rw [List.length_append] at hbound
    exact Nat.lt_of_le_of_lt (Nat.le_add_right _ _) hbound
  obtain ⟨outs, hwalks⟩ := hstop.1.walks ((frameStep_eq_none_iff data stop).mpr hstop.2)
  obtain ⟨extra, last, hrest⟩ := exists_frame_walk (data ++ more) stop
  refine ⟨extra, last, hrest, ?_⟩
  rw [scanPacketLocations_eq_of_walks data hshort hwalks]
  exact scanPacketLocations_eq_of_walks _ hfile (hwalks.extend (frameStep_append data more) hrest)

/-- Appended bytes keep the locations exactly when the walk meets no packet behind the position at
which it stopped. -/
theorem scan_append_eq_iff {data more : Bytes} (hfile : FitsFile (data ++ more)) {stop : ℕ}
    (hstop : StopsAt data stop) :
    scanPacketLocations (data ++ more) = scanPacketLocations data ↔
      ¬ MeetsPacket (data ++ more) stop := by
  obtain ⟨extra, last, hrest, hscan⟩ := exists_scan_append hfile hstop
  rw [hscan, List.append_right_eq_self, walks_eq_nil_iff hrest]

/-- Every walk stops somewhere. -/
theorem exists_stopsAt (data : Bytes) : ∃ stop, StopsAt data stop := by
  obtain ⟨outs, last, h⟩ := exists_frame_walk data 0
  exact ⟨last, h.reaches_last, (frameStep_eq_none_iff data last).mp h.step_last⟩

/-- The walk over a stream of blocks stops at its end. -/
theorem stopsAt_encodeBlocks (all : List Block) :
    StopsAt (encodeBlocks all) (encodeBlocks all).length := by
  have hwalks := walks_encodeBlocks [] all
  exact ⟨hwalks.reaches_last, (frameStep_eq_none_iff _ _).mp hwalks.step_last⟩

section Bundle

variable (capture parquet : Bytes)

theorem pqcapBundle_eq_append :
    pqcapBundle capture parquet =
      capture ++ (customBlock parquet ++ footerBlock capture.length parquet.length) := by
  rw [pqcapBundle, List.append_assoc]

/-- The zeros fill the custom block's body up to four bytes. -/
theorem customBody_aligned : (customBody parquet).length % 4 = 0 := by
  rw [customBody_length, padCount]
  omega

/-- Neither appended block has the type of a packet block. -/
theorem pqcapBlockTypes_not_packet :
    (pqcapCustomBlockType.toNat ≠ 6 ∧ pqcapCustomBlockType.toNat ≠ 3) ∧
      pqcapFooterBlockType.toNat ≠ 6 ∧ pqcapFooterBlockType.toNat ≠ 3 := by
  decide

/-- The block that carries the Parquet file, when its length has an encoding. -/
def customRaw (hfits : 12 + (customBody parquet).length < 2 ^ 32) : OtherBlock where
  blockType := pqcapCustomBlockType
  body := customBody parquet
  aligned := customBody_aligned parquet
  fits := hfits
  notEnhanced := pqcapBlockTypes_not_packet.1.1
  notSimple := pqcapBlockTypes_not_packet.1.2

/-- The fields of a footer block between its two lengths. -/
def footerBody (captureSize parquetSize : ℕ) : Bytes :=
  (((footerFields 1 0 (captureSize + 33) parquetSize).drop 2).take 6).flatten

theorem footerBody_length (captureSize parquetSize : ℕ) :
    (footerBody captureSize parquetSize).length = 32 := by
  simp [footerBody, footerFields, footerMagic]

/-- The block that records where the Parquet file lies. -/
def footerRaw (captureSize parquetSize : ℕ) : OtherBlock where
  blockType := pqcapFooterBlockType
  body := footerBody captureSize parquetSize
  aligned := by rw [footerBody_length]
  fits := by rw [footerBody_length]; decide
  notEnhanced := pqcapBlockTypes_not_packet.2.1
  notSimple := pqcapBlockTypes_not_packet.2.2

/-- The custom block is a well-formed block when its length has an encoding. -/
theorem customBlock_eq_encode (hfits : 12 + (customBody parquet).length < 2 ^ 32) :
    customBlock parquet = (customRaw parquet hfits).encode := by
  rw [customBlock_eq, customLen, Nat.mod_eq_of_lt hfits]
  rfl

/-- So is the footer block of a bundle that fits into a file. -/
theorem footerBlock_bundle (hfile : FitsFile (pqcapBundle capture parquet)) :
    footerBlock capture.length parquet.length =
      encodeBlocks [.other (footerRaw capture.length parquet.length)] := by
  have hlength := pqcapBundle_length capture parquet
  have hbound : (pqcapBundle capture parquet).length < 2 ^ 63 := hfile
  have hbody := footerBody_length capture.length parquet.length
  rw [footerBlock_eq _ _ (by omega) (by omega), encodeBlocks_cons, Block.encode, Block.toRaw,
    RawBlock.encode, footerRaw, hbody]
  simp only [footerBody, footerFields, List.drop_succ_cons, List.drop_zero, List.take_succ_cons,
    List.take_zero, List.flatten_cons, List.flatten_nil, List.append_nil, List.append_assoc]
  rfl

/-- A bundle is its capture followed by two well-formed blocks that hold no packets, when
the length of the first has an encoding. -/
theorem pqcapBundle_eq_encodeBlocks (hfile : FitsFile (pqcapBundle capture parquet))
    (hfits : 12 + (customBody parquet).length < 2 ^ 32) :
    pqcapBundle capture parquet = capture ++
      encodeBlocks [.other (customRaw parquet hfits),
        .other (footerRaw capture.length parquet.length)] := by
  have hcustom : (Block.other (customRaw parquet hfits)).encode = customBlock parquet :=
    (customBlock_eq_encode parquet hfits).symm
  rw [pqcapBundle_eq_append, encodeBlocks_cons, hcustom, footerBlock_bundle capture parquet hfile]

/-- A capture that ends at a block boundary keeps its packets, whatever is embedded below
four gigabytes. -/
theorem scan_pqcapBundle_of_clean_end (hfile : FitsFile (pqcapBundle capture parquet))
    (hfits : 12 + (customBody parquet).length < 2 ^ 32) (hend : StopsAt capture capture.length) :
    scanPacketLocations (pqcapBundle capture parquet) = scanPacketLocations capture := by
  have hblocks := pqcapBundle_eq_encodeBlocks capture parquet hfile hfits
  rw [hblocks] at hfile ⊢
  obtain ⟨extra, last, hrest, hscan⟩ := exists_scan_append hfile hend
  have hnone := (hrest.unique (walks_encodeBlocks capture _)).1
  rw [hscan, hnone]
  exact List.append_nil _

end Bundle

section Boundary

/-- The size of the body of the block that carries a Parquet file. -/
def bodySize (parquetSize : ℕ) : ℕ := 25 + parquetSize + padCount (25 + parquetSize)

/-- The position behind that block, at which the footer block starts. -/
def footerStart (captureSize parquetSize : ℕ) : ℕ := captureSize + 12 + bodySize parquetSize

/-- The capture with the first eight bytes that are appended, a block type and a length. -/
def continued (capture : Bytes) (parquetSize : ℕ) : Bytes :=
  capture ++ (leBytes 4 0x00000BAD ++ leBytes 4 ((12 + bodySize parquetSize) % 2 ^ 32))

/-- The 33 bytes that stand before a Parquet file behind a capture. -/
def metadataHead (parquetSize : ℕ) : Bytes :=
  leBytes 4 0x00000BAD ++ leBytes 4 ((12 + bodySize parquetSize) % 2 ^ 32) ++ customHeader parquetSize

/-- The bytes that follow it: zeros, the length again, and the fields of the footer block. -/
def metadataTail (captureSize parquetSize : ℕ) : Bytes :=
  List.replicate (padCount (25 + parquetSize)) 0 ++
    leBytes 4 ((12 + bodySize parquetSize) % 2 ^ 32) ++
      (footerFields 1 0 (captureSize + 33) parquetSize).flatten

/-- The end of the block at a position, by the length that it then has. -/
def blockEnd (capture : Bytes) (parquetSize pos : ℕ) : ℕ :=
  pos + lengthField (continued capture parquetSize) pos

/-- The block at which the walk over the capture stops stays incomplete, or it is completed, holds
no packet and ends where the footer starts or too close to the end of the file for another block. -/
def KeepsPackets (capture : Bytes) (parquetSize stop : ℕ) : Prop :=
  lengthField (continued capture parquetSize) stop < 12 ∨
    footerStart capture.length parquetSize + 44 < blockEnd capture parquetSize stop ∨
      ¬ PacketHeader (continued capture parquetSize) stop ∧
        (blockEnd capture parquetSize stop = footerStart capture.length parquetSize ∨
          footerStart capture.length parquetSize + 32 < blockEnd capture parquetSize stop)

/-- That block is completed and holds no packet, but it ends inside the appended blocks. -/
def RunsInto (capture : Bytes) (parquetSize stop : ℕ) : Prop :=
  12 ≤ lengthField (continued capture parquetSize) stop ∧
    ¬ PacketHeader (continued capture parquetSize) stop ∧
      blockEnd capture parquetSize stop ≠ footerStart capture.length parquetSize ∧
        blockEnd capture parquetSize stop ≤ footerStart capture.length parquetSize + 32

variable {capture parquet : Bytes} {stop : ℕ}

theorem pqcapBundle_length_eq (capture parquet : Bytes) :
    (pqcapBundle capture parquet).length =
      footerStart capture.length parquet.length + 44 := by
  rw [pqcapBundle_length, footerStart, bodySize]
  omega

theorem continued_length (capture : Bytes) (parquetSize : ℕ) :
    (continued capture parquetSize).length = capture.length + 8 := by
  rw [continued, List.length_append, List.length_append, leBytes_length, leBytes_length]

theorem customLen_eq (parquet : Bytes) :
    customLen parquet = (12 + bodySize parquet.length) % 2 ^ 32 := by
  rw [customLen, customBody_length, bodySize]

/-- Behind the capture stands the Parquet file, between bytes that the two sizes determine. -/
theorem pqcapBundle_eq_metadata (hfile : FitsFile (pqcapBundle capture parquet)) :
    pqcapBundle capture parquet = capture ++ (metadataHead parquet.length ++ parquet ++
      metadataTail capture.length parquet.length) := by
  have hlength := pqcapBundle_length capture parquet
  have hbound : (pqcapBundle capture parquet).length < 2 ^ 63 := hfile
  rw [pqcapBundle_eq_append, customBlock_eq, customBody_eq, customLen_eq,
    footerBlock_eq _ _ (by omega) (by omega), metadataHead, metadataTail]
  simp only [List.append_assoc]

/-- Where the walk over the capture stops, the bundle has the fields of the continued capture. -/
theorem fields_bundle (hstop : stop ≤ capture.length) :
    typeField (pqcapBundle capture parquet) stop =
        typeField (continued capture parquet.length) stop ∧
      lengthField (pqcapBundle capture parquet) stop =
        lengthField (continued capture parquet.length) stop := by
  have hfront : pqcapBundle capture parquet = continued capture parquet.length ++
      (customBody parquet ++ (leBytes 4 (customLen parquet) ++
        footerBlock capture.length parquet.length)) := by
    rw [pqcapBundle_eq_append, customBlock_eq, customLen_eq, continued]
    simp only [List.append_assoc]
  rw [hfront]
  exact fields_append _ _ stop (by rw [continued_length]; omega)

/-- The block there is complete in the bundle when the bundle is long enough for it. -/
theorem framed_bundle_iff (hstop : stop ≤ capture.length) :
    Framed (pqcapBundle capture parquet) stop ↔
      12 ≤ lengthField (continued capture parquet.length) stop ∧
        blockEnd capture parquet.length stop ≤ footerStart capture.length parquet.length + 44 := by
  unfold Framed blockEnd
  rw [pqcapBundle_length_eq, (fields_bundle hstop).2, footerStart]
  omega

/-- A block that is complete in the bundle only ends behind the capture. -/
theorem StopsAt.length_lt_blockEnd (hstop : StopsAt capture stop)
    (hmin : 12 ≤ lengthField (continued capture parquet.length) stop) :
    capture.length < blockEnd capture parquet.length stop := by
  by_contra hinside
  rw [blockEnd] at hinside
  have hsame : lengthField (continued capture parquet.length) stop = lengthField capture stop :=
    (fields_append capture _ stop (by omega)).2
  rw [hsame] at hmin hinside
  exact hstop.2 ⟨by omega, hmin, by omega⟩

/-- The footer block holds no packet. -/
theorem not_meetsPacket_footer (hfile : FitsFile (pqcapBundle capture parquet)) :
    ¬ MeetsPacket (pqcapBundle capture parquet)
      (footerStart capture.length parquet.length) := by
  have hfront : (capture ++ customBlock parquet).length =
      footerStart capture.length parquet.length := by
    rw [List.length_append, customBlock_length, customBody_length, footerStart, bodySize]
    omega
  have hwalks := walks_encodeBlocks (capture ++ customBlock parquet)
    [.other (footerRaw capture.length parquet.length)]
  rw [← footerBlock_bundle capture parquet hfile, hfront] at hwalks
  exact (walks_eq_nil_iff hwalks).mp rfl

/-- From where the walk over the capture stops, the walk over the bundle meets a packet in the block
there or, when that block is complete and ends inside the appended blocks, in these. -/
theorem meetsPacket_bundle_iff (hfile : FitsFile (pqcapBundle capture parquet))
    (hstop : StopsAt capture stop) :
    MeetsPacket (pqcapBundle capture parquet) stop ↔
      12 ≤ lengthField (continued capture parquet.length) stop ∧
        blockEnd capture parquet.length stop ≤ footerStart capture.length parquet.length + 44 ∧
          (PacketHeader (continued capture parquet.length) stop ∨
            RunsInto capture parquet.length stop ∧
              MeetsPacket (metadataHead parquet.length ++ parquet ++
                  metadataTail capture.length parquet.length)
                (blockEnd capture parquet.length stop - capture.length)) := by
  have hinside := hstop.le_length
  have hfields := @fields_bundle capture parquet stop hinside
  have hpacket : PacketHeader (pqcapBundle capture parquet) stop ↔
      PacketHeader (continued capture parquet.length) stop := by
    rw [PacketHeader, PacketHeader, hfields.1, hfields.2]
  have hend : stop + lengthField (pqcapBundle capture parquet) stop =
      blockEnd capture parquet.length stop := congrArg _ hfields.2
  rw [meetsPacket_iff, framed_bundle_iff hinside, hpacket, hend, and_assoc]
  refine and_congr_right fun hmin => and_congr_right fun hcomplete => or_congr_right' fun hplain => ?_
  have hbehind := hstop.length_lt_blockEnd hmin
  have hshift : MeetsPacket (pqcapBundle capture parquet) (blockEnd capture parquet.length stop) ↔
      MeetsPacket (metadataHead parquet.length ++ parquet ++
          metadataTail capture.length parquet.length)
        (blockEnd capture parquet.length stop - capture.length) := by
    have hmeets := meetsPacket_behind capture
      (metadataHead parquet.length ++ parquet ++ metadataTail capture.length parquet.length)
      (blockEnd capture parquet.length stop - capture.length)
    rwa [Nat.add_sub_cancel' hbehind.le, ← pqcapBundle_eq_metadata hfile] at hmeets
  rw [← hshift]
  refine ⟨fun hmeets => ⟨⟨hmin, hplain, fun hfooter => ?_, ?_⟩, hmeets⟩, And.right⟩
  · exact not_meetsPacket_footer hfile (hfooter ▸ hmeets)
  · have hroom := ((meetsPacket_iff _ _).mp hmeets).1.1
    rw [pqcapBundle_length_eq] at hroom
    omega

/-- No packet is met exactly when the packets are kept, or the walk runs into the appended blocks and
meets none there. -/
theorem keepsPackets_or_iff {parquetSize : ℕ} (meets : Prop) :
    KeepsPackets capture parquetSize stop ∨ RunsInto capture parquetSize stop ∧ ¬ meets ↔
      ¬ (12 ≤ lengthField (continued capture parquetSize) stop ∧
        blockEnd capture parquetSize stop ≤ footerStart capture.length parquetSize + 44 ∧
          (PacketHeader (continued capture parquetSize) stop ∨
            RunsInto capture parquetSize stop ∧ meets)) := by
  constructor
  · rintro (hkeeps | ⟨hinto, hnone⟩) ⟨hmin, hcomplete, hmeets⟩
    · obtain hshort | hlong | ⟨hplain, hends⟩ := hkeeps
      · omega
      · omega
      · obtain hpacket | ⟨⟨-, -, hstart, hroom⟩, -⟩ := hmeets
        · exact hplain hpacket
        · omega
    · exact hmeets.elim hinto.2.1 fun hmeets => hnone hmeets.2
  · intro hnone
    by_cases hmin : 12 ≤ lengthField (continued capture parquetSize) stop
    · by_cases hcomplete : blockEnd capture parquetSize stop ≤
          footerStart capture.length parquetSize + 44
      · obtain ⟨hplain, hrest⟩ := not_or.mp fun hor => hnone ⟨hmin, hcomplete, hor⟩
        by_cases hinto : RunsInto capture parquetSize stop
        · exact .inr ⟨hinto, fun hmeets => hrest ⟨hinto, hmeets⟩⟩
        · refine .inl (.inr (.inr ⟨hplain, ?_⟩))
          by_contra hends
          exact hinto ⟨hmin, hplain, by omega, by omega⟩
      · exact .inl (.inr (.inl (by omega)))
    · exact .inl (.inl (by omega))

/-- Embedding keeps the packet locations exactly when the end of the capture and the size of the
Parquet file say so or, where the last block ends inside the appended bytes, the walk meets no packet
block from there on. It does so behind a whole block, while the length of the custom block has an encoding, and
it does not when it completes a packet block. -/
theorem scan_pqcapBundle_keeps_iff (hfile : FitsFile (pqcapBundle capture parquet))
    (hstop : StopsAt capture stop) :
    (scanPacketLocations (pqcapBundle capture parquet) = scanPacketLocations capture ↔
      KeepsPackets capture parquet.length stop ∨
        RunsInto capture parquet.length stop ∧
          ¬ MeetsPacket (metadataHead parquet.length ++ parquet ++
              metadataTail capture.length parquet.length)
            (blockEnd capture parquet.length stop - capture.length)) ∧
      (stop = capture.length → 12 + bodySize parquet.length < 2 ^ 32 →
        scanPacketLocations (pqcapBundle capture parquet) = scanPacketLocations capture) ∧
      (stop + 8 ≤ capture.length → PacketHeader capture stop →
        stop + lengthField capture stop ≤ footerStart capture.length parquet.length + 44 →
          scanPacketLocations (pqcapBundle capture parquet) ≠ scanPacketLocations capture) := by
  have hinside := hstop.le_length
  have hsame : scanPacketLocations (pqcapBundle capture parquet) = scanPacketLocations capture ↔
      ¬ MeetsPacket (pqcapBundle capture parquet) stop := by
    rw [pqcapBundle_eq_append] at hfile ⊢
    exact scan_append_eq_iff hfile hstop
  refine ⟨hsame.trans ((meetsPacket_bundle_iff hfile hstop).not.trans ?_), ?_, ?_⟩
  · exact (keepsPackets_or_iff _).symm
  · rintro rfl hfits
    refine scan_pqcapBundle_of_clean_end capture parquet hfile ?_ hstop
    rwa [customBody_length]
  · intro hheader hpacket hcomplete heq
    obtain ⟨htype, hlength⟩ := fields_append capture (leBytes 4 0x00000BAD ++
      leBytes 4 ((12 + bodySize parquet.length) % 2 ^ 32)) stop hheader
    rw [← continued] at htype hlength
    rw [PacketHeader, ← htype, ← hlength] at hpacket
    rw [← hlength] at hcomplete
    refine hsame.mp heq ((meetsPacket_bundle_iff hfile hstop).mpr ⟨?_, hcomplete, .inl hpacket⟩)
    rcases hpacket with hpacket | hpacket <;> omega

end Boundary

/-- Four sample blocks keep their packets. -/
theorem sampleBlocks_keep_packets :
    (scanPacketLocations (pqcapBundle (encodeBlocks sampleBlocks) (ascii "PAR1")) =
        scanPacketLocations (encodeBlocks sampleBlocks) ↔
      KeepsPackets (encodeBlocks sampleBlocks) (ascii "PAR1").length
          (encodeBlocks sampleBlocks).length ∨
        RunsInto (encodeBlocks sampleBlocks) (ascii "PAR1").length
            (encodeBlocks sampleBlocks).length ∧
          ¬ MeetsPacket (metadataHead (ascii "PAR1").length ++ ascii "PAR1" ++
              metadataTail (encodeBlocks sampleBlocks).length (ascii "PAR1").length)
            (blockEnd (encodeBlocks sampleBlocks) (ascii "PAR1").length
              (encodeBlocks sampleBlocks).length - (encodeBlocks sampleBlocks).length)) ∧
      scanPacketLocations (pqcapBundle (encodeBlocks sampleBlocks) (ascii "PAR1")) =
        scanPacketLocations (encodeBlocks sampleBlocks) := by
  have hfile : FitsFile (pqcapBundle (encodeBlocks sampleBlocks) (ascii "PAR1")) := by
    decide +kernel
  obtain ⟨hiff, hend, -⟩ := scan_pqcapBundle_keeps_iff hfile (stopsAt_encodeBlocks sampleBlocks)
  exact ⟨hiff, hend rfl (by decide)⟩

/-- A section header followed by the first 28 bytes of an enhanced packet block. -/
def cutCapture : Bytes := (encodeBlocks sampleBlocks).take 56

/-- Embedding into the capture with the cut block adds a packet. -/
theorem scan_cutCapture_changes :
    ¬ ∀ (capture parquet : Bytes) (fs : VirtualFileSystem) (path : Bytes),
      FitsFile (pqcapBundle capture parquet) →
        fs path fileFlagsRead = .ok (some (FileHandle.ofContent capture)) →
          ensurePlainCapture fs path = .ok () →
            scanPacketLocations (pqcapBundle capture parquet) = scanPacketLocations capture := by
  intro h
  have hbefore : scanPacketLocations cutCapture = [] := by decide +kernel
  have hafter : scanPacketLocations (pqcapBundle cutCapture (ascii "PAR1")) = [⟨56, 5⟩] := by
    decide +kernel
  have hfooter : endsWithFooter cutCapture = false := by decide +kernel
  have heq := h cutCapture (ascii "PAR1") (fun _ _ => .ok (some (FileHandle.ofContent cutCapture)))
    [] (by decide +kernel) rfl (by
      rw [ensurePlainCapture_eq rfl (FileHandle.ofContent_holds _ (by decide +kernel)), hfooter]
      rfl)
  rw [hbefore, hafter] at heq
  exact List.cons_ne_nil _ _ heq

end PqcapReader
