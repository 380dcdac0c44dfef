import PqcapReader.PacketTable
import PqcapReader.PacketPlane

/-!
# The files of the pcapng library

The extension hands packets to LightPcapNg and relies on the blocks that it appends to the
capture. `WritesBlocks` says which blocks these are. `blockFiles` is such a library over
byte strings, in which runs can be computed: it writes one section with one interface, and
reads the packets of enhanced packet blocks with the link type and the timestamp resolution
of their interface.
-/

namespace PqcapReader

open ByteCodec CursorWalk

/-- The bytes behind the pointer that a call hands over: the library reads as many as the header
counts. -/
def handedBytes (call : LightPacketHeader × Bytes) : Bytes :=
  call.2.take call.1.capturedLength.toNat

/-- What the pcapng library writes: blocks without packets when a file is opened with the link
type, and for each of the calls one enhanced packet block with the bytes that it is handed,
possibly after blocks without packets. -/
structure LightPcapNg.WritesBlocks (light : LightPcapNg) (linktype : UInt16)
    (calls : List (LightPacketHeader × Bytes)) : Prop where
  opened : ∃ others : List OtherBlock,
    light.content (light.openWrite linktype) = encodeBlocks (others.map Block.other)
  written : ∀ call ∈ calls, ∀ writer, ∃ (others : List OtherBlock) (packet : EnhancedPacket),
    packet.payload = handedBytes call ∧
      light.content (light.writePacket writer call.1 call.2) = light.content writer ++
        encodeBlocks (others.map Block.other ++ [.enhanced packet])

section Writing

/-- The body of a section header block: byte order, version, and an unknown length. -/
def sectionBody : Bytes := leBytes 4 0x1A2B3C4D ++ leBytes 2 1 ++ leBytes 2 0 ++
  leBytes 8 (2 ^ 64 - 1)

/-- The body of an interface description block. -/
def interfaceBody (linktype : UInt16) : Bytes :=
  leBytes 2 linktype.toNat ++ leBytes 2 0 ++ leBytes 4 0

theorem interfaceBody_length (linktype : UInt16) : (interfaceBody linktype).length = 8 := by
  simp only [interfaceBody, List.length_append, leBytes_length]

theorem interfaceBody_aligned (linktype : UInt16) : (interfaceBody linktype).length % 4 = 0 := by
  rw [interfaceBody_length]

theorem interfaceBody_fits (linktype : UInt16) :
    12 + (interfaceBody linktype).length < 2 ^ 32 := by
  rw [interfaceBody_length]
  decide

/-- An interface description block is not an enhanced packet block. -/
theorem interfaceType_not_enhanced : (1 : UInt32).toNat ≠ 6 := by decide

/-- Nor is it a simple packet block. -/
theorem interfaceType_not_simple : (1 : UInt32).toNat ≠ 3 := by decide

/-- The section header block and the interface description block that open a file. -/
def openingBlocks (linktype : UInt16) : List OtherBlock :=
  [⟨⟨0x0A0D0D0A, sectionBody, by decide, by decide⟩, by decide, by decide⟩,
    ⟨⟨1, interfaceBody linktype, interfaceBody_aligned linktype, interfaceBody_fits linktype⟩,
      interfaceType_not_enhanced, interfaceType_not_simple⟩]

theorem padCount_lt (size : ℕ) : padCount size < 4 := Nat.mod_lt _ (by decide)

/-- The filling makes the size a multiple of four. -/
theorem padCount_aligned (size : ℕ) : (size + padCount size) % 4 = 0 := by
  rw [padCount]
  omega

theorem padding_aligned (data : Bytes) :
    (data.length + (List.replicate (padCount data.length) (0 : UInt8)).length) % 4 = 0 := by
  rw [List.length_replicate]
  exact padCount_aligned data.length

theorem padding_short (data : Bytes) :
    (List.replicate (padCount data.length) (0 : UInt8)).length < 4 := by
  rw [List.length_replicate]
  exact padCount_lt data.length

/-- The packet has an encoding. -/
def FitsPacket (data : Bytes) : Prop :=
  32 + data.length + (List.replicate (padCount data.length) (0 : UInt8)).length + 0 < 2 ^ 32

instance (data : Bytes) : Decidable (FitsPacket data) := by
  unfold FitsPacket
  infer_instance

/-- The enhanced packet block for a header and its bytes. -/
def enhancedPacket (header : LightPacketHeader) (data : Bytes) (h : FitsPacket data) :
    EnhancedPacket where
  interfaceId := header.interfaceId
  timestampHigh := ((timestampMicros header).toUInt64 >>> 32).toUInt32
  timestampLow := (timestampMicros header).toUInt64.toUInt32
  originalLength := header.originalLength
  payload := data
  padding := List.replicate (padCount data.length) 0
  options := []
  short := padding_short data
  padded := padding_aligned data
  optionsAligned := rfl
  fits := h

end Writing

section Reading

variable (content : Bytes)

/-- The positions of the complete blocks of a file. -/
def blockPositions : List ℕ :=
  Id.run (walk (fun pos => pure (if Framed content pos then
    some ([pos], pos + lengthField content pos) else none)) (content.length + 1) 0)

/-- A little-endian field of the block at a position. -/
def blockField (pos offset size : ℕ) : ℕ := leValue (slice content (pos + offset) size)

/-- The ticks in a second of the interface described at a position: a power of ten when its
first option is the resolution, and microseconds without it. -/
def ticksPerSecond (pos : ℕ) : ℕ :=
  if blockField content pos 16 2 = 9 ∧ blockField content pos 18 2 = 1 then
    10 ^ blockField content pos 20 1
  else
    1000000

/-- The link type and the resolution of each interface, in file order. -/
def interfaces : List (UInt16 × ℕ) :=
  ((blockPositions content).filter fun pos => typeField content pos = 1).map fun pos =>
    (UInt16.ofNat (blockField content pos 8 2), ticksPerSecond content pos)

/-- The packet of the enhanced packet block at a position. -/
def readPacket (pos : ℕ) : LightPacket :=
  let described := (interfaces content).getD (blockField content pos 8 4) (0, 1000000)
  let ticks := blockField content pos 12 4 * 2 ^ 32 + blockField content pos 16 4
  let data := slice content (pos + 28) (blockField content pos 20 4)
  { header := {
      interfaceId := UInt32.ofNat (blockField content pos 8 4)
      tvSec := Int64.ofNat (ticks / described.2)
      tvNsec := Int64.ofNat (ticks % described.2 * 1000000000 / described.2)
      capturedLength := UInt32.ofNat data.length
      originalLength := UInt32.ofNat (blockField content pos 24 4)
      dataLink := described.1
      comment := none }
    data := some data }

end Reading

/-- A pcapng library over byte strings. -/
def blockFiles : LightPcapNg where
  Writer := Bytes
  packets content := some (((blockPositions content).filter fun pos =>
    typeField content pos = 6).map (readPacket content))
  openWrite linktype := encodeBlocks ((openingBlocks linktype).map Block.other)
  writePacket writer header data :=
    if h : FitsPacket (handedBytes (header, data)) then
      writer ++ encodeBlocks [.enhanced (enhancedPacket header (handedBytes (header, data)) h)]
    else
      writer
  content writer := writer

/-- The library returns packets with the bytes that they count. -/
theorem blockFiles_deliversPackets : blockFiles.DeliversPackets := by
  intro content packets hread packet hpacket
  obtain rfl := Option.some.inj hread
  obtain ⟨pos, -, rfl⟩ := List.mem_map.mp hpacket
  intro data hdata
  obtain rfl := Option.some.inj hdata
  change (UInt32.ofNat _).toNat ≤ _
  rw [UInt32.toNat_ofNat']
  exact Nat.mod_le _ _

/-- The library writes one block for each packet that has an encoding. -/
theorem blockFiles_writesBlocks (linktype : UInt16) {calls : List (LightPacketHeader × Bytes)}
    (hfits : ∀ call ∈ calls, FitsPacket (handedBytes call)) : blockFiles.WritesBlocks linktype calls where
  opened := ⟨openingBlocks linktype, rfl⟩
  written call hcall _ :=
    ⟨[], enhancedPacket call.1 (handedBytes call) (hfits call hcall), rfl,
      dif_pos (hfits call hcall)⟩

/-- A packet of three bytes at one second and one microsecond. -/
def onePacket (linktype : UInt16) : LightPacket :=
  ⟨⟨0, 1, 1000, 3, 3, linktype, none⟩, some (ascii "abc")⟩

/-- The file of that packet. -/
def oneCapture (linktype : UInt16) : Bytes :=
  blockFiles.content (blockFiles.writePacket (blockFiles.openWrite linktype)
    (onePacket linktype).header (ascii "abc"))

example : blockFiles.packets (oneCapture 1) = some [onePacket 1] := by decide +kernel

end PqcapReader
