import PqcapReader.FrameLayers

/-!
# Frames, built and parsed

A frame is a link header, a network header, a transport header, and what follows. The
headers are given by their fields, with the length fields tied to the options they count.
`ParseL4Fields` passes the link header and the network header and parses the rest by the
transport protocol alone.
-/

namespace PqcapReader

open ByteCodec

/-- An IPv4 header: the version and the header length in one byte, eight bytes up to the
protocol, the checksum, the addresses, and as many option words as the length counts. -/
structure IPv4Header where
  first : UInt8
  service : Bytes
  checksum : Bytes
  source : Bytes
  destination : Bytes
  options : Bytes
  headerLength : (first &&& 0x0F).toNat * 4 = 20 + options.length
  service_length : service.length = 8
  checksum_length : checksum.length = 2
  source_length : source.length = 4
  destination_length : destination.length = 4

/-- A plain IPv6 header: the version byte, five bytes up to the next-header field, the hop
limit, and the addresses. -/
structure IPv6Header where
  first : UInt8
  service : Bytes
  hopLimit : UInt8
  source : Bytes
  destination : Bytes
  service_length : service.length = 5
  source_length : source.length = 16
  destination_length : destination.length = 16

def IPv4Header.fields (header : IPv4Header) (protocol : UInt8) : List Bytes :=
  [[header.first], header.service, [protocol], header.checksum, header.source,
    header.destination, header.options]

def IPv6Header.fields (header : IPv6Header) (protocol : UInt8) : List Bytes :=
  [[header.first], header.service, [protocol], [header.hopLimit], header.source,
    header.destination]

/-- A header of either version; its protocol is a parameter. -/
inductive NetworkHeader
  | ipv4 (header : IPv4Header)
  | ipv6 (header : IPv6Header)

namespace NetworkHeader

def ipVersion : NetworkHeader → IpVersion
  | .ipv4 _ => .v4
  | .ipv6 _ => .v6

/-- The number by which link headers announce the version. -/
def etherType : NetworkHeader → UInt16
  | .ipv4 _ => 0x0800
  | .ipv6 _ => 0x86DD

theorem etherType_not_tag (net : NetworkHeader) :
    ¬ (net.etherType = 0x8100 ∨ net.etherType = 0x88A8) := by
  cases net with
  | ipv4 header => exact show ¬ ((0x0800 : UInt16) = 0x8100 ∨ (0x0800 : UInt16) = 0x88A8) by decide
  | ipv6 header => exact show ¬ ((0x86DD : UInt16) = 0x8100 ∨ (0x86DD : UInt16) = 0x88A8) by decide

/-- The byte with the version in its upper half. -/
def first : NetworkHeader → UInt8
  | .ipv4 header => header.first
  | .ipv6 header => header.first

/-- The version that belongs into the upper half of the first byte. -/
def version : NetworkHeader → UInt8
  | .ipv4 _ => 4
  | .ipv6 _ => 6

/-- The label of protocols without ports. -/
def label : NetworkHeader → Bytes
  | .ipv4 _ => ascii "IP_"
  | .ipv6 _ => ascii "IP6_"

def fields (protocol : UInt8) : NetworkHeader → List Bytes
  | .ipv4 header => header.fields protocol
  | .ipv6 header => header.fields protocol

def encode (net : NetworkHeader) (protocol : UInt8) : Bytes := (net.fields protocol).flatten

def sourceText : NetworkHeader → Bytes
  | .ipv4 header => printIPv4 header.source
  | .ipv6 header => printIPv6 header.source

def destinationText : NetworkHeader → Bytes
  | .ipv4 header => printIPv4 header.destination
  | .ipv6 header => printIPv6 header.destination

end NetworkHeader

/-- A VLAN tag: its protocol identifier is 0x88A8 for a service tag and 0x8100 otherwise. -/
structure VlanTag where
  service : Bool
  control : UInt16
  deriving DecidableEq, Repr

/-- The 16-bit number that announces a tag. -/
def VlanTag.identifier (tag : VlanTag) : UInt16 := if tag.service then 0x88A8 else 0x8100

theorem VlanTag.identifier_eq (tag : VlanTag) :
    tag.identifier = 0x8100 ∨ tag.identifier = 0x88A8 := by
  rw [VlanTag.identifier]
  split
  · exact .inr rfl
  · exact .inl rfl

/-- The link headers in front of a network header. -/
inductive LinkHeader
  | raw
  | linuxSll (front : Bytes) (front_length : front.length = 14)
  | ethernet (dataLink : UInt16) (addresses : Bytes) (tag : Option VlanTag)
      (not_raw : dataLink ≠ dltRaw) (not_sll : dataLink ≠ dltLinuxSll)
      (addresses_length : addresses.length = 12)

namespace LinkHeader

def dataLink : LinkHeader → UInt16
  | .raw => dltRaw
  | .linuxSll _ _ => dltLinuxSll
  | .ethernet dataLink _ _ _ _ _ => dataLink

def tagBytes : Option VlanTag → Bytes
  | none => []
  | some tag => beBytes (if tag.service then 0x88A8 else 0x8100) ++ beBytes tag.control

def encode (etherType : UInt16) : LinkHeader → Bytes
  | .raw => []
  | .linuxSll front _ => front ++ beBytes etherType
  | .ethernet _ addresses tag _ _ _ => addresses ++ tagBytes tag ++ beBytes etherType

/-- Only raw IP is told apart by the version in the network header. -/
def Carries (link : LinkHeader) (net : NetworkHeader) : Prop :=
  link = .raw → net.first >>> 4 = net.version

end LinkHeader

/-- A frame: what follows the network header is any bytes. -/
def frame (link : LinkHeader) (net : NetworkHeader) (protocol : UInt8) (transport : Bytes) : Bytes :=
  link.encode net.etherType ++ (net.encode protocol ++ transport)

section Fields

variable (fields : List Bytes) (rest : Bytes)

/-- The next field in a flat encoding is where the ones before it end. -/
theorem slice_encode (i offset : ℕ) {size : ℕ} {field : Bytes} (hfield : fields[i]? = some field)
    (hoffset : ((fields.take i).map List.length).sum = offset) (hsize : field.length = size) :
    slice (fields.flatten ++ rest) offset size = field := by
  obtain ⟨hi, -⟩ := List.getElem?_eq_some_iff.mp hfield
  have hflat : slice (fields ++ [rest]).flatten offset size = field := by
    apply slice_flatten (i := i) _ _ hsize
    · rw [List.getElem?_append_left hi, hfield]
    · rw [List.take_append_of_le_length hi.le, hoffset]
  rw [← hflat, List.flatten_append, List.flatten_singleton]

/-- A field of one byte. -/
theorem getD_encode (i offset : ℕ) {value : UInt8} (hfield : fields[i]? = some [value])
    (hoffset : ((fields.take i).map List.length).sum = offset) :
    (fields.flatten ++ rest).getD offset 0 = value :=
  getD_of_slice (slice_encode fields rest i offset hfield hoffset rfl) (i := 0) Nat.one_pos

end Fields

section Networks

variable (protocol : UInt8) (transport : Bytes)

/-- An IPv4 header is accepted and passed by its own length, options included. -/
theorem IPv4Header.accepted (header : IPv4Header) :
    ipHeader .v4 ((header.fields protocol).flatten ++ transport) =
      some ⟨protocol, printIPv4 header.source, printIPv4 header.destination, transport⟩ := by
  have hlength : (header.fields protocol).flatten.length = 20 + header.options.length := by
    simp only [IPv4Header.fields, List.length_flatten, List.map_cons, List.map_nil, List.sum_cons,
      List.sum_nil, List.length_singleton, header.service_length, header.checksum_length,
      header.source_length, header.destination_length]
    omega
  have hsize : PqcapReader.headerLength ((header.fields protocol).flatten ++ transport) =
      20 + header.options.length := header.headerLength
  have hprotocol : ((header.fields protocol).flatten ++ transport).getD 9 0 = protocol := by
    apply getD_encode _ _ 2 9 rfl
    simp [IPv4Header.fields, header.service_length]
  have hsource : slice ((header.fields protocol).flatten ++ transport) 12 4 = header.source := by
    apply slice_encode _ _ 4 12 rfl _ header.source_length
    simp [IPv4Header.fields, header.service_length, header.checksum_length]
  have hdestination : slice ((header.fields protocol).flatten ++ transport) 16 4 =
      header.destination := by
    apply slice_encode _ _ 5 16 rfl _ header.destination_length
    simp [IPv4Header.fields, header.service_length, header.checksum_length, header.source_length]
  rw [ipHeader, hsize, List.length_append, hlength, if_pos ⟨by omega, by omega⟩, hprotocol, hsource,
    hdestination, List.drop_left' hlength]

/-- An IPv6 header is accepted and passed by its forty bytes. -/
theorem IPv6Header.accepted (header : IPv6Header) :
    ipHeader .v6 ((header.fields protocol).flatten ++ transport) =
      some ⟨protocol, printIPv6 header.source, printIPv6 header.destination, transport⟩ := by
  have hlength : (header.fields protocol).flatten.length = 40 := by
    simp only [IPv6Header.fields, List.length_flatten, List.map_cons, List.map_nil, List.sum_cons,
      List.sum_nil, List.length_singleton, header.service_length, header.source_length,
      header.destination_length]
    rfl
  have hprotocol : ((header.fields protocol).flatten ++ transport).getD 6 0 = protocol := by
    apply getD_encode _ _ 2 6 rfl
    simp [IPv6Header.fields, header.service_length]
  have hsource : slice ((header.fields protocol).flatten ++ transport) 8 16 = header.source := by
    apply slice_encode _ _ 4 8 rfl _ header.source_length
    simp [IPv6Header.fields, header.service_length]
  have hdestination : slice ((header.fields protocol).flatten ++ transport) 24 16 =
      header.destination := by
    apply slice_encode _ _ 5 24 rfl _ header.destination_length
    simp [IPv6Header.fields, header.service_length, header.source_length]
  rw [ipHeader, List.length_append, hlength, if_pos (by omega), hprotocol, hsource, hdestination,
    List.drop_left' hlength]

namespace NetworkHeader

variable (net : NetworkHeader)

/-- A network header of either version gives its protocol, its addresses, printed, and the bytes
behind it. -/
theorem accepted :
    ipHeader net.ipVersion (net.encode protocol ++ transport) =
      some ⟨protocol, net.sourceText, net.destinationText, transport⟩ := by
  cases net with
  | ipv4 header => exact header.accepted protocol transport
  | ipv6 header => exact header.accepted protocol transport

/-- A network header starts with its version byte. -/
theorem encode_first :
    net.encode protocol ++ transport ≠ [] ∧
      (net.encode protocol ++ transport).getD 0 0 = net.first := by
  cases net with
  | ipv4 header => exact ⟨List.cons_ne_nil _ _, rfl⟩
  | ipv6 header => exact ⟨List.cons_ne_nil _ _, rfl⟩

theorem fields_encode :
    (LinkContent.datagram net.ipVersion (net.encode protocol ++ transport)).fields =
      transportFields net.label protocol transport
        { srcIp := net.sourceText, dstIp := net.destinationText } := by
  rw [LinkContent.fields, net.accepted protocol transport]
  cases net with
  | ipv4 header => rfl
  | ipv6 header => rfl

/-- A number that announces a version leads to a datagram of it. -/
theorem etherContent_etherType (label bytes : Bytes) :
    etherContent label net.etherType bytes = .datagram net.ipVersion bytes := by
  cases net with
  | ipv4 header => rfl
  | ipv6 header => rfl

theorem rawContent_eq {bytes : Bytes} (hversion : bytes.getD 0 0 >>> 4 = net.version) :
    rawContent bytes = .datagram net.ipVersion bytes := by
  cases net with
  | ipv4 header => exact if_pos hversion
  | ipv6 header =>
    have hsix : bytes.getD 0 0 >>> 4 = 6 := hversion
    have hfour : bytes.getD 0 0 >>> 4 ≠ 4 := by
      rw [hsix]
      decide
    rw [rawContent, if_neg hfour, if_pos hsix]
    rfl

end NetworkHeader

end Networks

section Links

variable {etherType : UInt16} {front addresses : Bytes} (bytes : Bytes)

/-- Linux cooked frames go by the last two of sixteen bytes. -/
theorem linuxSllContent_encode (hfront : front.length = 14) :
    linuxSllContent (front ++ (beBytes etherType ++ bytes)) =
      etherContent (ascii "SLL_0x") etherType bytes := by
  have hlong : (front ++ (beBytes etherType ++ bytes)).length = 16 + bytes.length := by
    rw [List.length_append, List.length_append, hfront, ← Nat.add_assoc]
    rfl
  have htype : beField (front ++ (beBytes etherType ++ bytes)) 14 = etherType :=
    beField_of_slice (slice_field bytes hfront rfl)
  have hdrop : (front ++ (beBytes etherType ++ bytes)).drop 16 = bytes := by
    rw [← List.append_assoc]
    exact List.drop_left' (by rw [List.length_append, hfront]; rfl)
  rw [linuxSllContent, if_neg (by omega), htype, hdrop]

variable {dataLink : UInt16} (haddresses : addresses.length = 12)

include haddresses

/-- The fields behind the addresses. -/
theorem beField_behind (pos : ℕ) (rest : Bytes) {value : UInt16}
    (h : slice rest pos 2 = beBytes value) : beField (addresses ++ rest) (12 + pos) = value := by
  rw [← haddresses, beField_append]
  exact beField_of_slice h

/-- Untagged Ethernet frames go by the last two of fourteen bytes. -/
theorem ethernetContent_untagged (htag : ¬ (etherType = 0x8100 ∨ etherType = 0x88A8)) :
    ethernetContent dataLink (addresses ++ (beBytes etherType ++ bytes)) =
      etherContent (ascii "ETH_0x") etherType bytes := by
  have hlong : (addresses ++ (beBytes etherType ++ bytes)).length = 14 + bytes.length := by
    rw [List.length_append, List.length_append, haddresses, ← Nat.add_assoc]
    rfl
  have htype : beField (addresses ++ (beBytes etherType ++ bytes)) 12 = etherType :=
    beField_behind haddresses 0 _ (slice_front (beBytes etherType) bytes rfl)
  have hdrop : (addresses ++ (beBytes etherType ++ bytes)).drop 14 = bytes := by
    rw [← List.append_assoc]
    exact List.drop_left' (by rw [List.length_append, haddresses]; rfl)
  rw [ethernetContent, if_neg (by omega), htype, if_neg fun h => htag h.1, hdrop]

/-- Behind a tag, the next two bytes are taken for the type of the payload, whatever they are. -/
theorem ethernetContent_tag (tag : VlanTag) (etherType : UInt16) :
    ethernetContent dataLink
        (addresses ++ (LinkHeader.tagBytes (some tag) ++ (beBytes etherType ++ bytes))) =
      etherContent (ascii "ETH_0x") etherType bytes := by
  have htag : LinkHeader.tagBytes (some tag) = beBytes tag.identifier ++ beBytes tag.control := rfl
  have hlong : (addresses ++ (LinkHeader.tagBytes (some tag) ++
      (beBytes etherType ++ bytes))).length = 18 + bytes.length := by
    rw [List.length_append, List.length_append, List.length_append, haddresses, ← Nat.add_assoc,
      ← Nat.add_assoc]
    rfl
  have hidentifier : beField (addresses ++ (LinkHeader.tagBytes (some tag) ++
      (beBytes etherType ++ bytes))) 12 = tag.identifier := by
    rw [htag, List.append_assoc]
    exact beField_behind haddresses 0 _ (slice_front (beBytes tag.identifier) _ rfl)
  have htype : beField (addresses ++ (LinkHeader.tagBytes (some tag) ++
      (beBytes etherType ++ bytes))) 16 = etherType :=
    beField_behind haddresses 4 _ (slice_field bytes rfl rfl)
  have hdrop : (addresses ++ (LinkHeader.tagBytes (some tag) ++
      (beBytes etherType ++ bytes))).drop 18 = bytes := by
    rw [← List.append_assoc, ← List.append_assoc]
    exact List.drop_left' (by rw [List.length_append, List.length_append, haddresses]; rfl)
  rw [ethernetContent, if_neg (by omega), hidentifier, htype,
    if_pos ⟨tag.identifier_eq, by omega⟩, hdrop]

end Links

section Frames

variable (net : NetworkHeader) (protocol : UInt8) (transport : Bytes)

/-- A link header that announces a datagram leads to it. -/
theorem LinkHeader.content_encode {link : LinkHeader} {datagram : Bytes}
    (hcarries : link.Carries net) (hfirst : datagram ≠ [] ∧ datagram.getD 0 0 = net.first) :
    linkContent link.dataLink (link.encode net.etherType ++ datagram) =
      .datagram net.ipVersion datagram := by
  have hsome : link.encode net.etherType ++ datagram ≠ [] :=
    fun hnil => hfirst.1 (List.append_eq_nil_iff.mp hnil).2
  rw [linkContent, if_neg hsome]
  cases link with
  | raw =>
    have hversion := hcarries rfl
    rw [← hfirst.2] at hversion
    exact net.rawContent_eq hversion
  | linuxSll front front_length =>
    have hraw : dltLinuxSll ≠ dltRaw := by decide
    rw [LinkHeader.dataLink, if_neg hraw, if_pos rfl, LinkHeader.encode, List.append_assoc,
      linuxSllContent_encode _ front_length]
    exact net.etherContent_etherType _ _
  | ethernet dataLink addresses tag not_raw not_sll addresses_length =>
    rw [LinkHeader.dataLink, if_neg not_raw, if_neg not_sll, LinkHeader.encode]
    cases tag with
    | none =>
      rw [LinkHeader.tagBytes, List.append_nil, List.append_assoc,
        ethernetContent_untagged _ addresses_length net.etherType_not_tag]
      exact net.etherContent_etherType _ _
    | some tag =>
      rw [List.append_assoc, List.append_assoc, ethernetContent_tag _ addresses_length]
      exact net.etherContent_etherType _ _

/-- Behind a link header that announces it, a datagram is parsed as it is on its own. -/
theorem l4Fields_frame {link : LinkHeader} (hcarries : link.Carries net)
    (hlength : (frame link net protocol transport).length < 2 ^ 32) :
    l4Fields link.dataLink (frame link net protocol transport) =
      transportFields net.label protocol transport
        { srcIp := net.sourceText, dstIp := net.destinationText } := by
  rw [l4Fields_eq_content (hlength.trans (by decide)), frame,
    LinkHeader.content_encode net hcarries (net.encode_first protocol transport),
    net.fields_encode]

end Frames

/-- A TCP header: the ports, the sequence and acknowledgement numbers, the byte with the header
length in its upper half, seven more bytes, and as many option words as the length counts. -/
structure TcpHeader where
  sourcePort : UInt16
  destinationPort : UInt16
  numbers : Bytes
  offset : UInt8
  flags : Bytes
  options : Bytes
  headerLength : ((offset >>> 4) &&& 0x0F).toNat * 4 = 20 + options.length
  numbers_length : numbers.length = 8
  flags_length : flags.length = 7

/-- A UDP header: the ports, then the length and the checksum. -/
structure UdpHeader where
  sourcePort : UInt16
  destinationPort : UInt16
  lengthAndChecksum : Bytes
  lengthAndChecksum_length : lengthAndChecksum.length = 4

inductive TransportHeader
  | tcp (header : TcpHeader)
  | udp (header : UdpHeader)

namespace TransportHeader

def protocol : TransportHeader → UInt8
  | .tcp _ => 6
  | .udp _ => 17

def label : TransportHeader → Bytes
  | .tcp _ => ascii "TCP"
  | .udp _ => ascii "UDP"

def sourcePort : TransportHeader → UInt16
  | .tcp header => header.sourcePort
  | .udp header => header.sourcePort

def destinationPort : TransportHeader → UInt16
  | .tcp header => header.destinationPort
  | .udp header => header.destinationPort

def fields : TransportHeader → List Bytes
  | .tcp header => [beBytes header.sourcePort, beBytes header.destinationPort, header.numbers,
      [header.offset], header.flags, header.options]
  | .udp header => [beBytes header.sourcePort, beBytes header.destinationPort,
      header.lengthAndChecksum]

def encode (header : TransportHeader) : Bytes := header.fields.flatten

variable (header : TransportHeader) (rest : Bytes)

/-- Both headers start with the two ports. -/
theorem beField_ports :
    beField (header.encode ++ rest) 0 = header.sourcePort ∧
      beField (header.encode ++ rest) 2 = header.destinationPort := by
  cases header with
  | tcp header =>
    exact ⟨beField_of_slice (slice_encode (TransportHeader.tcp header).fields rest 0 0 rfl rfl rfl),
      beField_of_slice (slice_encode (TransportHeader.tcp header).fields rest 1 2 rfl rfl rfl)⟩
  | udp header =>
    exact ⟨beField_of_slice (slice_encode (TransportHeader.udp header).fields rest 0 0 rfl rfl rfl),
      beField_of_slice (slice_encode (TransportHeader.udp header).fields rest 1 2 rfl rfl rfl)⟩

/-- A complete header of a protocol with ports gives its ports and its label. -/
theorem transportFields_encode (label : Bytes) (out : ParsedL4Fields) :
    transportFields label header.protocol (header.encode ++ rest) out =
      { out with
        hasPorts := true, srcPort := Int32.ofNat header.sourcePort.toNat,
        dstPort := Int32.ofNat header.destinationPort.toNat, l4Protocol := header.label } := by
  have hports : out.withPorts header.label (header.encode ++ rest) =
      { out with
        hasPorts := true, srcPort := Int32.ofNat header.sourcePort.toNat,
        dstPort := Int32.ofNat header.destinationPort.toNat, l4Protocol := header.label } := by
    obtain ⟨hsource, hdestination⟩ := header.beField_ports rest
    rw [ParsedL4Fields.withPorts, hsource, hdestination]
  rw [transportFields_eq, ← hports]
  cases header with
  | tcp header =>
    have hoffset : ((TransportHeader.tcp header).encode ++ rest).getD 12 0 = header.offset := by
      apply getD_encode (TransportHeader.tcp header).fields rest 3 12 rfl
      simp [fields, beBytes, header.numbers_length]
    have hsize : tcpHeaderLength ((TransportHeader.tcp header).encode ++ rest) =
        20 + header.options.length := by
      rw [tcpHeaderLength, hoffset, header.headerLength]
    have hlength : ((TransportHeader.tcp header).encode ++ rest).length =
        20 + header.options.length + rest.length := by
      simp only [encode, fields, beBytes, List.length_append, List.length_flatten, List.map_cons,
        List.map_nil, List.sum_cons, List.sum_nil, List.length_cons, List.length_nil,
        header.numbers_length, header.flags_length]
      omega
    rw [if_pos ⟨rfl, by omega⟩, if_pos ⟨by omega, by omega⟩]
    rfl
  | udp header =>
    have hlength : ((TransportHeader.udp header).encode ++ rest).length = 8 + rest.length := by
      simp only [encode, fields, beBytes, List.length_append, List.length_flatten, List.map_cons,
        List.map_nil, List.sum_cons, List.sum_nil, List.length_cons, List.length_nil,
        header.lengthAndChecksum_length]
      omega
    have hprotocol : (TransportHeader.udp header).protocol = 17 := rfl
    have htcp : ¬ ((17 : UInt8) = 6 ∧ 20 ≤ ((TransportHeader.udp header).encode ++ rest).length) :=
      fun h => absurd h.1 (by decide)
    rw [hprotocol, if_neg htcp, if_pos ⟨rfl, by omega⟩]
    rfl

end TransportHeader

/-- Parsing a frame that was built from its headers gives back the addresses and the ports,
whatever options the headers carry and whatever follows them. -/
theorem l4Fields_encode {link : LinkHeader} {net : NetworkHeader} (header : TransportHeader)
    (rest : Bytes) (hcarries : link.Carries net)
    (hlength : (frame link net header.protocol (header.encode ++ rest)).length < 2 ^ 32) :
    l4Fields link.dataLink (frame link net header.protocol (header.encode ++ rest)) =
      { srcIp := net.sourceText, dstIp := net.destinationText, hasPorts := true,
        srcPort := Int32.ofNat header.sourcePort.toNat,
        dstPort := Int32.ofNat header.destinationPort.toNat, l4Protocol := header.label } := by
  rw [l4Fields_frame net header.protocol (header.encode ++ rest) hcarries hlength,
    header.transportFields_encode]

/-- An IPv4 header with one option word. -/
def sampleIPv4 : IPv4Header :=
  ⟨0x46, [0, 0, 52, 0, 1, 0, 0, 64], [0xAB, 0xCD], [10, 0, 0, 1], [192, 168, 255, 7], [1, 1, 1, 0],
    by decide, rfl, rfl, rfl, rfl⟩

/-- A TCP header with one option word. -/
def sampleTcp : TcpHeader :=
  ⟨443, 51515, [0, 0, 0, 1, 0, 0, 0, 2], 0x60, [0x18, 4, 0, 0, 0, 0, 0], [2, 4, 5, 0xB4], by decide,
    rfl, rfl⟩

/-- An Ethernet header with a service tag, under a link type of its own. -/
def sampleEthernet : LinkHeader :=
  .ethernet 12 [1, 2, 3, 4, 5, 6, 7, 8, 9, 10, 11, 12] (some ⟨true, 0x2064⟩) (by decide) (by decide)
    rfl

/-- TCP over IPv4 behind a tag, both with options, before three further bytes. -/
theorem l4Fields_encode_sample :
    l4Fields sampleEthernet.dataLink (frame sampleEthernet (.ipv4 sampleIPv4)
        (TransportHeader.tcp sampleTcp).protocol ((TransportHeader.tcp sampleTcp).encode ++
          [7, 8, 9])) =
      { srcIp := (NetworkHeader.ipv4 sampleIPv4).sourceText
        dstIp := (NetworkHeader.ipv4 sampleIPv4).destinationText, hasPorts := true,
        srcPort := Int32.ofNat (TransportHeader.tcp sampleTcp).sourcePort.toNat,
        dstPort := Int32.ofNat (TransportHeader.tcp sampleTcp).destinationPort.toNat,
        l4Protocol := (TransportHeader.tcp sampleTcp).label } :=
  l4Fields_encode (.tcp sampleTcp) [7, 8, 9] (fun h => by cases h) (by decide)

section Agreement

/-- Two results agree on the transport: on the ports, and on the label up to the prefix that names
the version of a protocol without a label of its own. -/
structure AgreeOnTransport (protocol : UInt8) (label label' : Bytes)
    (fields fields' : ParsedL4Fields) : Prop where
  hasPorts : fields.hasPorts = fields'.hasPorts
  srcPort : fields.srcPort = fields'.srcPort
  dstPort : fields.dstPort = fields'.dstPort
  l4Protocol : fields.l4Protocol = fields'.l4Protocol ∨
    fields.l4Protocol = label ++ decimal protocol.toNat ∧
      fields'.l4Protocol = label' ++ decimal protocol.toNat

/-- The transport parser gives the same for any label and any addresses. -/
theorem transportFields_agree (label label' : Bytes) (protocol : UInt8) (transport : Bytes)
    (srcIp dstIp srcIp' dstIp' : Bytes) :
    AgreeOnTransport protocol label label'
      (transportFields label protocol transport { srcIp := srcIp, dstIp := dstIp })
      (transportFields label' protocol transport { srcIp := srcIp', dstIp := dstIp' }) := by
  rw [transportFields_eq, transportFields_eq]
  split
  · split
    · exact ⟨rfl, rfl, rfl, .inl rfl⟩
    · exact ⟨rfl, rfl, rfl, .inl rfl⟩
  · split
    · exact ⟨rfl, rfl, rfl, .inl rfl⟩
    · exact ⟨rfl, rfl, rfl, .inr ⟨rfl, rfl⟩⟩

/-- However a transport header is carried, complete or not, the result for it is the same; a fixed
datagram gives the same result behind every link header. A frame's length is a `uint32_t`. -/
theorem l4Fields_by_transport (protocol : UInt8) (transport : Bytes) {link link' : LinkHeader}
    {net net' : NetworkHeader} (hcarries : link.Carries net) (hcarries' : link'.Carries net')
    (hlength : (frame link net protocol transport).length < 2 ^ 32)
    (hlength' : (frame link' net' protocol transport).length < 2 ^ 32) :
    AgreeOnTransport protocol net.label net'.label
        (l4Fields link.dataLink (frame link net protocol transport))
        (l4Fields link'.dataLink (frame link' net' protocol transport)) ∧
      (net = net' → l4Fields link.dataLink (frame link net protocol transport) =
        l4Fields link'.dataLink (frame link' net' protocol transport)) := by
  rw [l4Fields_frame net protocol transport hcarries hlength,
    l4Fields_frame net' protocol transport hcarries' hlength']
  refine ⟨transportFields_agree _ _ _ _ _ _ _ _, ?_⟩
  rintro rfl
  rfl

/-- A plain IPv6 header. -/
def sampleIPv6 : IPv6Header :=
  ⟨0x60, [0, 0, 0, 0, 40], 64, List.replicate 16 0xFE, List.replicate 16 0x01, rfl, rfl, rfl⟩

/-- A TCP header cut short, as raw IPv6 and behind tagged Ethernet in IPv4 with options. -/
theorem l4Fields_by_transport_sample :
    AgreeOnTransport 6 (NetworkHeader.ipv6 sampleIPv6).label (NetworkHeader.ipv4 sampleIPv4).label
        (l4Fields LinkHeader.raw.dataLink (frame .raw (.ipv6 sampleIPv6) 6 [1, 187, 200]))
        (l4Fields sampleEthernet.dataLink
          (frame sampleEthernet (.ipv4 sampleIPv4) 6 [1, 187, 200])) ∧
      (NetworkHeader.ipv6 sampleIPv6 = NetworkHeader.ipv4 sampleIPv4 →
        l4Fields LinkHeader.raw.dataLink (frame .raw (.ipv6 sampleIPv6) 6 [1, 187, 200]) =
          l4Fields sampleEthernet.dataLink
            (frame sampleEthernet (.ipv4 sampleIPv4) 6 [1, 187, 200])) :=
  l4Fields_by_transport 6 [1, 187, 200] (fun _ => by decide) (fun h => by cases h) (by decide)
    (by decide)

end Agreement

end PqcapReader
