import PqcapReader.FrameLayers
import PqcapReader.PacketScan

/-!
# Ports of IPv4 datagrams

The ports of a row are the first four bytes behind an IPv4 header, if those bytes have the
form of a whole TCP or UDP header. Three fields of the IPv4 header say whether a transport
header stands there at all: the version, the fragment offset, and the total length. The
parser does not look at them.
-/

namespace PqcapReader

open ByteCodec

section Datagram

variable (datagram : Bytes)

/-- The upper half of the first byte. -/
def ipVersionField : UInt8 := datagram.getD 0 0 >>> 4

def protocolField : UInt8 := datagram.getD 9 0

/-- The thirteen lower bits of the field at byte six. -/
def fragmentOffset : UInt16 := beField datagram 6 &&& 0x1FFF

def totalLength : ℕ := (beField datagram 2).toNat

/-- Behind an IPv4 header of a legal length the captured bytes have the form of a whole transport
header of the header's protocol. -/
structure TransportForm (start size : ℕ) : Prop where
  start_eq : start = headerLength datagram
  legal : 20 ≤ start
  captured : start + size ≤ datagram.length
  header : HeaderForm (protocolField datagram) (datagram.drop start) size

/-- The IPv4 header bears out that a transport header stands there: the version is four, the
datagram is no later fragment, and its own length covers the header. -/
structure BearsOut (start size : ℕ) : Prop where
  version : ipVersionField datagram = 4
  unfragmented : fragmentOffset datagram = 0
  covered : start + size ≤ totalLength datagram

/-- Bytes of another kind stand where the transport header would be. -/
inductive Misleads (start size : ℕ) : Prop
  | mislabelled (h : ipVersionField datagram ≠ 4)
  | laterFragment (h : fragmentOffset datagram ≠ 0)
  | padding (h : totalLength datagram < start + size)

end Datagram

section Forms

variable {datagram : Bytes} {start size : ℕ}

theorem TransportForm.unique {start' size' : ℕ} (h : TransportForm datagram start size)
    (h' : TransportForm datagram start' size') : start = start' ∧ size = size' := by
  obtain rfl : start = start' := h.start_eq.trans h'.start_eq.symm
  exact ⟨rfl, h.header.unique h'.header⟩

theorem not_misleads_iff : ¬ Misleads datagram start size ↔ BearsOut datagram start size := by
  constructor
  · intro h
    refine ⟨?_, ?_, ?_⟩
    · exact not_not.mp fun hversion => h (.mislabelled hversion)
    · exact not_not.mp fun hoffset => h (.laterFragment hoffset)
    · exact not_lt.mp fun hlength => h (.padding hlength)
  · rintro ⟨hversion, hoffset, hlength⟩ (h | h | h)
    · exact h hversion
    · exact h hoffset
    · exact h.not_ge hlength

theorem beField_drop (hstart : start ≤ datagram.length) (i : ℕ) :
    beField (datagram.drop start) i = beField datagram (start + i) := by
  have happend := beField_append (datagram.take start) (datagram.drop start) i
  rw [List.take_append_drop, List.length_take_of_le hstart] at happend
  exact happend.symm

/-- The ports in the fields are the numbers that a transport header at a position starts with. -/
def ParsedL4Fields.PortsAt (out : ParsedL4Fields) (datagram : Bytes) (start : ℕ) : Prop :=
  out.srcPort = Int32.ofNat (beField datagram start).toNat ∧
    out.dstPort = Int32.ofNat (beField datagram (start + 2)).toNat

/-- An IPv4 datagram gives ports exactly when its captured bytes have the form of a transport
header, and then it gives the two numbers that stand there first. -/
theorem datagram_ports (datagram : Bytes) :
    (∃ start size, TransportForm datagram start size ∧
        (LinkContent.datagram .v4 datagram).fields.hasPorts = true ∧
        (LinkContent.datagram .v4 datagram).fields.PortsAt datagram start) ∨
      (∀ start size, ¬ TransportForm datagram start size) ∧
        (LinkContent.datagram .v4 datagram).fields.hasPorts = false := by
  rw [LinkContent.fields, ipHeader]
  by_cases hheader : 20 ≤ headerLength datagram ∧ headerLength datagram ≤ datagram.length
  · rw [if_pos hheader, Option.map_some, Option.getD_some, IpHeader.fields]
    rcases transportFields_cases IpVersion.v4.label (datagram.getD 9 0)
      (datagram.drop (headerLength datagram))
      { srcIp := printIPv4 (slice datagram 12 4), dstIp := printIPv4 (slice datagram 16 4) }
      with ⟨size, name, hform, hfields⟩ | ⟨hnone, name, hfields⟩
    · have hsize := hform.le_length
      rw [List.length_drop] at hsize
      rw [hfields]
      refine .inl ⟨_, size, ⟨rfl, hheader.1, by omega, hform⟩, rfl, ?_⟩
      constructor
      · exact congrArg (fun port : UInt16 => Int32.ofNat port.toNat) (beField_drop hheader.2 0)
      · exact congrArg (fun port : UInt16 => Int32.ofNat port.toNat) (beField_drop hheader.2 2)
    · rw [hfields]
      refine .inr ⟨?_, rfl⟩
      rintro start size ⟨rfl, -, -, hform⟩
      exact hnone size hform
  · rw [if_neg hheader]
    refine .inr ⟨?_, rfl⟩
    rintro start size ⟨rfl, hlegal, hcaptured, -⟩
    exact hheader ⟨hlegal, by omega⟩

end Forms

section Packets

variable (packet : LightPacket)

/-- The ports of a packet that carries an IPv4 datagram are those of a transport header that really
stands there; otherwise the packet has no ports, and both port cells are NULL. -/
structure PortsFromHeaders : Prop where
  genuine : ∀ datagram, linkContent packet.header.dataLink packet.bytes = .datagram .v4 datagram →
    (l4Fields packet.header.dataLink packet.bytes).hasPorts = true →
      ∃ start size, TransportForm datagram start size ∧ BearsOut datagram start size ∧
        (l4Fields packet.header.dataLink packet.bytes).PortsAt datagram start
  otherwise : (l4Fields packet.header.dataLink packet.bytes).hasPorts = false →
    packetCell (packetRow packet) (ascii "src_port") = .null ∧
      packetCell (packetRow packet) (ascii "dst_port") = .null

/-- The ports are those of transport headers exactly when no IPv4 datagram in the form of one is
mislabelled, a later fragment, or shorter by its own length than the header. -/
theorem portsFromHeaders_iff :
    PortsFromHeaders packet ↔
      ∀ datagram start size,
        linkContent packet.header.dataLink packet.bytes = .datagram .v4 datagram →
          TransportForm datagram start size → ¬ Misleads datagram start size := by
  have hfields : l4Fields packet.header.dataLink packet.bytes =
      (linkContent packet.header.dataLink packet.bytes).fields :=
    l4Fields_eq_content (packet.bytes_length_lt.trans (by decide)) _
  constructor
  · intro h datagram start size hcontent hform
    rw [not_misleads_iff]
    rcases datagram_ports datagram with ⟨-, -, -, hports, -⟩ | ⟨hnone, -⟩
    · rw [← hcontent, ← hfields] at hports
      obtain ⟨start', size', hform', hbears, -⟩ := h.genuine datagram hcontent hports
      obtain ⟨rfl, rfl⟩ := hform.unique hform'
      exact hbears
    · exact absurd hform (hnone start size)
  · intro h
    refine ⟨fun datagram hcontent hports => ?_, fun hports => ?_⟩
    · rw [hfields, hcontent] at hports ⊢
      rcases datagram_ports datagram with ⟨start, size, hform, -, hports⟩ | ⟨-, hnone⟩
      · exact ⟨start, size, hform, not_misleads_iff.mp (h datagram start size hcontent hform),
          hports⟩
      · cases hports.symm.trans hnone
    · have hcells := nullCells packet
      exact ⟨hcells.2.1.mpr hports, hcells.2.2.mpr hports⟩

end Packets

/-- A later fragment of a UDP datagram, with text in it. -/
def laterFragment : LightPacket :=
  ⟨⟨0, 0, 0, 28, 28, dltRaw, none⟩,
    some ([0x45, 0, 0, 28, 0, 1, 0, 185, 64, 17, 0, 0, 10, 0, 0, 1, 10, 0, 0, 2] ++
      ascii "GET / HT")⟩

/-- The text in a later fragment is reported as ports. -/
theorem laterFragment_has_ports : ¬ ∀ packet : LightPacket, PortsFromHeaders packet := by
  intro h
  obtain ⟨start, size, -, hbears, -⟩ :=
    (h laterFragment).genuine laterFragment.bytes (by decide +kernel) (by decide +kernel)
  have hoffset : fragmentOffset laterFragment.bytes = 185 := by decide +kernel
  cases hoffset.symm.trans hbears.unfragmented

end PqcapReader
