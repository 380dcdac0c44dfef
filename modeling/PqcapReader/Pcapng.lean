import PqcapReader.BlockScan

/-!
# Well-formed little-endian pcapng blocks

What a capture is meant to be: a sequence of blocks, each framed by its type, its total
length, a body filled up to four bytes, and the total length again. Enhanced packet
blocks keep their packet 28 bytes into the block and simple packet blocks 12 bytes into
it. The structures carry the alignment and the 32-bit length bound, so a block that has
no encoding cannot be built.

On every such sequence the packet offset scan returns one location for each packet.
-/

namespace PqcapReader

open ByteCodec CursorWalk

/-- A block of any type with a body whose total length has an encoding. -/
structure RawBlock where
  blockType : UInt32
  body : Bytes
  aligned : body.length % 4 = 0
  fits : 12 + body.length < 2 ^ 32

/-- Type, total length, body, total length. -/
def RawBlock.encode (block : RawBlock) : Bytes :=
  leBytes 4 block.blockType.toNat ++ leBytes 4 (12 + block.body.length) ++ block.body ++
    leBytes 4 (12 + block.body.length)

/-- An enhanced packet block with the captured packet, its filling, and its options. -/
structure EnhancedPacket where
  interfaceId : UInt32
  timestampHigh : UInt32
  timestampLow : UInt32
  originalLength : UInt32
  payload : Bytes
  padding : Bytes
  options : Bytes
  short : padding.length < 4
  padded : (payload.length + padding.length) % 4 = 0
  optionsAligned : options.length % 4 = 0
  fits : 32 + payload.length + padding.length + options.length < 2 ^ 32

/-- A simple packet block whose packet is stored untruncated. -/
structure SimplePacket where
  payload : Bytes
  padding : Bytes
  short : padding.length < 4
  padded : (payload.length + padding.length) % 4 = 0
  fits : 16 + payload.length + padding.length < 2 ^ 32

/-- A block that is not a packet block: section headers, interface descriptions, statistics. -/
structure OtherBlock extends RawBlock where
  notEnhanced : blockType.toNat ≠ 6
  notSimple : blockType.toNat ≠ 3

/-- A well-formed block of a capture. -/
inductive Block
  | enhanced (packet : EnhancedPacket)
  | simple (packet : SimplePacket)
  | other (block : OtherBlock)

/-- The fixed fields of an enhanced packet block that precede its payload. -/
def EnhancedPacket.fields (packet : EnhancedPacket) : Bytes :=
  leBytes 4 packet.interfaceId.toNat ++ leBytes 4 packet.timestampHigh.toNat ++
    leBytes 4 packet.timestampLow.toNat ++ leBytes 4 packet.payload.length ++
      leBytes 4 packet.originalLength.toNat

theorem EnhancedPacket.fields_length (packet : EnhancedPacket) : packet.fields.length = 20 := by
  simp [EnhancedPacket.fields]

/-- The framing of an enhanced packet block. -/
def EnhancedPacket.toRaw (packet : EnhancedPacket) : RawBlock where
  blockType := 6
  body := packet.fields ++ packet.payload ++ (packet.padding ++ packet.options)
  aligned := by
    have h := packet.padded
    have hoptions := packet.optionsAligned
    simp only [List.length_append, packet.fields_length]
    omega
  fits := by
    have h := packet.fits
    simp only [List.length_append, packet.fields_length]
    omega

/-- The framing of a simple packet block. -/
def SimplePacket.toRaw (packet : SimplePacket) : RawBlock where
  blockType := 3
  body := leBytes 4 packet.payload.length ++ packet.payload ++ packet.padding
  aligned := by
    have h := packet.padded
    simp only [List.length_append, leBytes_length]
    omega
  fits := by
    have h := packet.fits
    simp only [List.length_append, leBytes_length]
    omega

namespace Block

/-- The block's type and body. -/
def toRaw : Block → RawBlock
  | .enhanced packet => packet.toRaw
  | .simple packet => packet.toRaw
  | .other block => block.toRawBlock

/-- The bytes of the block. -/
def encode (block : Block) : Bytes := block.toRaw.encode

/-- The packet of a packet block, with its position inside the block. -/
def packet? : Block → Option (ℕ × Bytes)
  | .enhanced packet => some (28, packet.payload)
  | .simple packet => some (12, packet.payload)
  | .other _ => none

end Block

/-- The bytes of a sequence of blocks. -/
def encodeBlocks (blocks : List Block) : Bytes := blocks.flatMap Block.encode

/-- The packets of a sequence of blocks, in file order. -/
def packetPayloads (blocks : List Block) : List Bytes :=
  blocks.filterMap fun block => block.packet?.map Prod.snd

/-- Where the packets of a sequence of blocks lie when the sequence begins at `start`. -/
def packetLocations (start : ℕ) : List Block → List PacketLocation
  | [] => []
  | block :: rest =>
    (block.packet?.map fun packet =>
        (⟨UInt64.ofNat (start + packet.1), UInt64.ofNat packet.2.length⟩ : PacketLocation)).toList ++
      packetLocations (start + block.encode.length) rest

/-- The location lies inside the file and delimits exactly the packet's bytes. -/
def LocatesPacket (file : Bytes) (location : PacketLocation) (payload : Bytes) : Prop :=
  location.size.toNat = payload.length ∧
    location.offset.toNat + payload.length ≤ file.length ∧
      slice file location.offset.toNat location.size.toNat = payload

theorem RawBlock.encode_length (block : RawBlock) :
    block.encode.length = 12 + block.body.length := by
  simp only [RawBlock.encode, List.length_append, leBytes_length]
  omega

section Framing

variable (front back : Bytes) (block : RawBlock)

/-- The header fields of a block that follows `front` in a file. -/
theorem RawBlock.header_at :
    typeField (front ++ block.encode ++ back) front.length = block.blockType.toNat ∧
      lengthField (front ++ block.encode ++ back) front.length = 12 + block.body.length := by
  have htype := block.blockType.toNat_lt
  have hfits := block.fits
  constructor
  · rw [typeField, RawBlock.encode]
    simp only [List.append_assoc]
    rw [slice_field _ rfl (leBytes_length 4 _), leValue_leBytes_of_lt (by omega)]
  · rw [lengthField, RawBlock.encode]
    simp only [List.append_assoc]
    rw [← List.append_assoc front,
      slice_field _ (by rw [List.length_append, leBytes_length]) (leBytes_length 4 _),
      leValue_leBytes_of_lt (by omega)]

/-- A framed block is complete in every file that contains it. -/
theorem RawBlock.framed_at : Framed (front ++ block.encode ++ back) front.length := by
  obtain ⟨-, hlength⟩ := block.header_at front back
  simp only [Framed, hlength, List.length_append, block.encode_length]
  omega

/-- A window of the body, read through the file that contains the block. -/
theorem RawBlock.slice_body (offset size : ℕ) (h : offset + size ≤ block.body.length) :
    slice (front ++ block.encode ++ back) (front.length + (8 + offset)) size =
      slice block.body offset size := by
  rw [List.append_assoc, slice_append_right, RawBlock.encode]
  have hfront := slice_append_right
    (leBytes 4 block.blockType.toNat ++ leBytes 4 (12 + block.body.length))
    (block.body ++ (leBytes 4 (12 + block.body.length) ++ back)) offset size
  simp only [List.length_append, leBytes_length, List.append_assoc] at hfront ⊢
  rw [hfront, slice_append_left _ _ _ _ h]

end Framing

/-- The captured length and the payload of an enhanced packet block, read from its body. -/
theorem EnhancedPacket.slice_body (packet : EnhancedPacket) :
    slice packet.toRaw.body 12 4 = leBytes 4 packet.payload.length ∧
      slice packet.toRaw.body 20 packet.payload.length = packet.payload := by
  constructor
  · simp only [EnhancedPacket.toRaw, EnhancedPacket.fields, List.append_assoc]
    rw [← List.append_assoc (leBytes 4 packet.interfaceId.toNat),
      ← List.append_assoc (leBytes 4 packet.interfaceId.toNat ++ _),
      slice_field _ (by simp) (leBytes_length 4 _)]
  · simp only [EnhancedPacket.toRaw, List.append_assoc]
    rw [slice_field _ packet.fields_length rfl]

/-- The packet length and the payload of a simple packet block, read from its body. -/
theorem SimplePacket.slice_body (packet : SimplePacket) :
    slice packet.toRaw.body 0 4 = leBytes 4 packet.payload.length ∧
      slice packet.toRaw.body 4 packet.payload.length = packet.payload := by
  simp only [SimplePacket.toRaw, List.append_assoc]
  constructor
  · have hfirst := slice_append_left (leBytes 4 packet.payload.length)
      (packet.payload ++ packet.padding) 0 4 (by rw [leBytes_length])
    exact hfirst
  · rw [slice_field _ (leBytes_length 4 _) rfl]

namespace Block

theorem encode_length (block : Block) : block.encode.length = 12 + block.toRaw.body.length :=
  block.toRaw.encode_length

/-- What the scan records for a block that follows `front` in a file. -/
theorem locationsAt_encode (front back : Bytes) (block : Block) :
    locationsAt (front ++ block.encode ++ back) front.length =
      (block.packet?.map fun packet =>
        (⟨UInt64.ofNat (front.length + packet.1), UInt64.ofNat packet.2.length⟩ :
          PacketLocation)).toList := by
  obtain ⟨htype, hlength⟩ := block.toRaw.header_at front back
  cases block with
  | enhanced packet =>
    have hfits := packet.fits
    have hbody : packet.toRaw.body.length =
        20 + packet.payload.length + (packet.padding.length + packet.options.length) := by
      simp only [EnhancedPacket.toRaw, List.length_append, packet.fields_length]
    have hfield := packet.toRaw.slice_body front back 12 4 (by omega)
    rw [packet.slice_body.1] at hfield
    refine (locationsAt_enhanced htype (hlength ▸ ?_)).trans ?_
    · simp only [toRaw]
      omega
    · change [(⟨_, UInt64.ofNat (leValue (slice (front ++ packet.toRaw.encode ++ back)
        (front.length + (8 + 12)) 4))⟩ : PacketLocation)] = _
      rw [hfield, leValue_leBytes_of_lt (by omega)]
      rfl
  | simple packet =>
    have hfits := packet.fits
    have hbody : packet.toRaw.body.length = 4 + packet.payload.length + packet.padding.length := by
      simp only [SimplePacket.toRaw, List.length_append, leBytes_length]
    have hfield := packet.toRaw.slice_body front back 0 4 (by omega)
    rw [packet.slice_body.1] at hfield
    refine (locationsAt_simple htype (hlength ▸ ?_)).trans ?_
    · simp only [toRaw]
      omega
    · change [(⟨_, UInt64.ofNat (leValue (slice (front ++ packet.toRaw.encode ++ back)
        (front.length + (8 + 0)) 4))⟩ : PacketLocation)] = _
      rw [hfield, leValue_leBytes_of_lt (by omega)]
      rfl
  | other block =>
    refine (locationsAt_eq_nil_iff _ _).mpr fun hpacket => ?_
    rcases hpacket with hpacket | hpacket
    · exact block.notEnhanced (htype.symm.trans hpacket.1)
    · exact block.notSimple (htype.symm.trans hpacket.1)

/-- The scan steps over a block that follows `front` in a file. -/
theorem frameStep_encode (front back : Bytes) (block : Block) :
    frameStep (front ++ block.encode ++ back) front.length =
      some ((block.packet?.map fun packet =>
        (⟨UInt64.ofNat (front.length + packet.1), UInt64.ofNat packet.2.length⟩ :
          PacketLocation)).toList, front.length + block.encode.length) := by
  rw [frameStep_eq_some_iff]
  refine ⟨block.toRaw.framed_at front back, (block.locationsAt_encode front back).symm, ?_⟩
  rw [block.encode_length]
  exact congrArg _ (block.toRaw.header_at front back).2.symm

/-- The packet of a packet block, read through the file that contains the block. -/
theorem slice_packet (front back : Bytes) (block : Block) (offset : ℕ) (payload : Bytes)
    (h : block.packet? = some (offset, payload)) :
    offset + payload.length ≤ block.encode.length ∧
      slice (front ++ block.encode ++ back) (front.length + offset) payload.length = payload := by
  rw [block.encode_length]
  cases block with
  | enhanced packet =>
    simp only [packet?, Option.some.injEq, Prod.mk.injEq] at h
    obtain ⟨rfl, rfl⟩ := h
    have hbody : packet.toRaw.body.length =
        20 + packet.payload.length + (packet.padding.length + packet.options.length) := by
      simp only [EnhancedPacket.toRaw, List.length_append, packet.fields_length]
    refine ⟨by simp only [toRaw]; omega, ?_⟩
    exact (packet.toRaw.slice_body front back 20 _ (by omega)).trans packet.slice_body.2
  | simple packet =>
    simp only [packet?, Option.some.injEq, Prod.mk.injEq] at h
    obtain ⟨rfl, rfl⟩ := h
    have hbody : packet.toRaw.body.length = 4 + packet.payload.length + packet.padding.length := by
      simp only [SimplePacket.toRaw, List.length_append, leBytes_length]
    refine ⟨by simp only [toRaw]; omega, ?_⟩
    exact (packet.toRaw.slice_body front back 4 _ (by omega)).trans packet.slice_body.2
  | other _ => simp [packet?] at h

end Block

theorem encodeBlocks_cons (block : Block) (rest : List Block) :
    encodeBlocks (block :: rest) = block.encode ++ encodeBlocks rest :=
  List.flatMap_cons

theorem encodeBlocks_append (left right : List Block) :
    encodeBlocks (left ++ right) = encodeBlocks left ++ encodeBlocks right :=
  List.flatMap_append

theorem packetPayloads_append (left right : List Block) :
    packetPayloads (left ++ right) = packetPayloads left ++ packetPayloads right :=
  List.filterMap_append

/-- Blocks that are not packet blocks hold no packets. -/
theorem packetPayloads_others (others : List OtherBlock) :
    packetPayloads (others.map Block.other) = [] := by
  induction others with
  | nil => rfl
  | cons other others ih => exact ih

/-- A file has no more packets than bytes. -/
theorem packetLocations_length_le (start : ℕ) (blocks : List Block) :
    (packetLocations start blocks).length ≤ (encodeBlocks blocks).length := by
  induction blocks generalizing start with
  | nil => exact Nat.le_refl _
  | cons block rest ih =>
    have hrest := ih (start + block.encode.length)
    have hblock := block.encode_length
    have hone : (block.packet?.map fun packet =>
        (⟨UInt64.ofNat (start + packet.1), UInt64.ofNat packet.2.length⟩ :
          PacketLocation)).toList.length ≤ 1 := by
      cases block.packet? with
      | none => exact Nat.zero_le _
      | some packet => exact Nat.le_refl _
    rw [packetLocations, encodeBlocks_cons, List.length_append, List.length_append]
    omega

/-- The walk over a sequence of blocks that follows `front` and ends the file. -/
theorem walks_encodeBlocks (front : Bytes) (blocks : List Block) :
    Walks (frameStep (front ++ encodeBlocks blocks)) front.length
      (packetLocations front.length blocks) (front ++ encodeBlocks blocks).length := by
  induction blocks generalizing front with
  | nil =>
    have hnil : front ++ encodeBlocks [] = front := List.append_nil front
    rw [hnil]
    refine .stop ((frameStep_eq_none_iff _ _).mpr fun h => ?_)
    have hheader := h.1
    omega
  | cons block rest ih =>
    rw [encodeBlocks_cons, ← List.append_assoc]
    refine .next (block.frameStep_encode front (encodeBlocks rest)) ?_
    simpa only [List.length_append] using ih (front ++ block.encode)

/-- The locations of a sequence of blocks delimit its packets, one for each and in order. -/
theorem packetLocations_locate (front : Bytes) (blocks : List Block)
    (hfile : FitsFile (front ++ encodeBlocks blocks)) :
    List.Forall₂ (LocatesPacket (front ++ encodeBlocks blocks))
      (packetLocations front.length blocks) (packetPayloads blocks) := by
  induction blocks generalizing front with
  | nil => exact .nil
  | cons block rest ih =>
    rw [encodeBlocks_cons, ← List.append_assoc] at hfile ⊢
    have hrest := ih (front ++ block.encode) hfile
    rw [List.length_append] at hrest
    rw [packetLocations, packetPayloads, List.filterMap_cons]
    cases hpacket : block.packet? with
    | none => exact hrest
    | some packet =>
      obtain ⟨offset, payload⟩ := packet
      refine .cons ?_ hrest
      obtain ⟨hend, hslice⟩ := block.slice_packet front (encodeBlocks rest) offset payload hpacket
      have hbound : (front ++ block.encode ++ encodeBlocks rest).length < 2 ^ 63 := hfile
      simp only [List.length_append] at hbound
      have hoffset : (UInt64.ofNat (front.length + offset)).toNat = front.length + offset := by
        rw [UInt64.toNat_ofNat', Nat.mod_eq_of_lt (by omega)]
      have hsize : (UInt64.ofNat payload.length).toNat = payload.length := by
        rw [UInt64.toNat_ofNat', Nat.mod_eq_of_lt (by omega)]
      refine ⟨hsize, ?_, ?_⟩
      · simp only [hoffset, List.length_append]
        omega
      · simp only [hoffset, hsize, hslice]

/-- The scan of a sequence of blocks records where its packets lie. -/
theorem scan_encodeBlocks (blocks : List Block) (hfile : FitsFile (encodeBlocks blocks)) :
    scanPacketLocations (encodeBlocks blocks) = packetLocations 0 blocks :=
  scanPacketLocations_eq_of_walks _ hfile (walks_encodeBlocks [] blocks)

/-- The scan of a well-formed capture returns one location for each enhanced and each simple
packet block, in file order and none for other blocks, and each delimits its packet's bytes. -/
theorem scanPacketLocations_encodeBlocks (blocks : List Block)
    (hfile : FitsFile (encodeBlocks blocks)) :
    scanPacketLocations (encodeBlocks blocks) = packetLocations 0 blocks ∧
      List.Forall₂ (LocatesPacket (encodeBlocks blocks))
        (scanPacketLocations (encodeBlocks blocks)) (packetPayloads blocks) := by
  rw [scan_encodeBlocks blocks hfile]
  exact ⟨rfl, packetLocations_locate [] blocks hfile⟩

/-- A section header, an enhanced packet block with options, an enhanced packet block without
a payload, and a simple packet block. -/
def sampleBlocks : List Block :=
  [.other ⟨⟨0x0A0D0D0A, leBytes 4 0x1A2B3C4D ++ leBytes 4 1 ++ leBytes 8 (2 ^ 64 - 1), by decide,
      by decide⟩, by decide, by decide⟩,
    .enhanced ⟨0, 0, 7, 60, [1, 2, 3, 4, 5], [0, 0, 0], [0, 0, 0, 0], by decide, by decide,
      by decide, by decide⟩,
    .enhanced ⟨0, 0, 8, 0, [], [], [], by decide, by decide, by decide, by decide⟩,
    .simple ⟨[6, 7], [0, 0], by decide, by decide, by decide⟩]

/-- The scan of the four sample blocks finds three packets, the second one empty. -/
theorem scanPacketLocations_sampleBlocks :
    scanPacketLocations (encodeBlocks sampleBlocks) = [⟨56, 5⟩, ⟨100, 0⟩, ⟨116, 2⟩] ∧
      List.Forall₂ (LocatesPacket (encodeBlocks sampleBlocks))
        (scanPacketLocations (encodeBlocks sampleBlocks)) [[1, 2, 3, 4, 5], [], [6, 7]] := by
  have h := scanPacketLocations_encodeBlocks sampleBlocks (by decide +kernel)
  have hlocations : packetLocations 0 sampleBlocks = [⟨56, 5⟩, ⟨100, 0⟩, ⟨116, 2⟩] := by decide
  exact ⟨h.1.trans hlocations, h.2⟩

end PqcapReader
