import PqcapReader.L4Fields

/-!
# What an arbitrary frame carries

The link header of a frame leads to the bytes of a datagram or gives the frame a label. A
datagram has an accepted header or none, and an accepted header leads to the bytes behind
it. `l4Fields_eq_content` says that `ParseL4Fields` goes by these layers on every frame,
with the cursor and the counter of the source replaced by the bytes that are left.
-/

namespace PqcapReader

open ByteCodec

/-- A 16-bit number in network order. -/
def beBytes (value : UInt16) : Bytes := [(value >>> 8).toUInt8, value.toUInt8]

/-- An IPv4 address as four decimal numbers. -/
def printIPv4 (address : Bytes) : Bytes :=
  [0x2E].intercalate (address.map fun byte => decimal byte.toNat)

/-- An IPv6 address as eight hexadecimal groups. -/
def printIPv6 (address : Bytes) : Bytes :=
  [0x3A].intercalate ((List.range 8).map fun i =>
    hexadecimal (256 * (address.getD (i * 2) 0).toNat + (address.getD (i * 2 + 1) 0).toNat))

inductive IpVersion
  | v4
  | v6
  deriving DecidableEq, Repr

/-- The label of protocols without ports. -/
def IpVersion.label : IpVersion → Bytes
  | .v4 => ascii "IP_"
  | .v6 => ascii "IP6_"

/-- The 16-bit number in network order at a position. -/
def beField (bytes : Bytes) (pos : ℕ) : UInt16 :=
  Id.run (readBE16 (PacketAccess.plain bytes) pos)

/-- A datagram that the link header announces, or the label of a frame without one. -/
inductive LinkContent
  | datagram (version : IpVersion) (bytes : Bytes)
  | other (label : Bytes)
  deriving DecidableEq, Repr

/-- What an EtherType announces. -/
def etherContent (label : Bytes) (etherType : UInt16) (bytes : Bytes) : LinkContent :=
  if etherType = 0x0800 then .datagram .v4 bytes
  else if etherType = 0x86DD then .datagram .v6 bytes
  else .other (label ++ paddedHexadecimal 4 etherType.toNat)

/-- Raw IP goes by the version in the first byte. -/
def rawContent (packet : Bytes) : LinkContent :=
  if packet.getD 0 0 >>> 4 = 4 then .datagram .v4 packet
  else if packet.getD 0 0 >>> 4 = 6 then .datagram .v6 packet
  else .other (ascii "RAW")

def linuxSllContent (packet : Bytes) : LinkContent :=
  if packet.length < 16 then .other (ascii "SLL")
  else etherContent (ascii "SLL_0x") (beField packet 14) (packet.drop 16)

/-- An Ethernet header may have one tag. -/
def ethernetContent (dataLink : UInt16) (packet : Bytes) : LinkContent :=
  if packet.length < 14 then .other (ascii "LINK_" ++ decimal dataLink.toNat)
  else if (beField packet 12 = 0x8100 ∨ beField packet 12 = 0x88A8) ∧ 18 ≤ packet.length then
    etherContent (ascii "ETH_0x") (beField packet 16) (packet.drop 18)
  else etherContent (ascii "ETH_0x") (beField packet 12) (packet.drop 14)

/-- What a frame carries behind its link header. -/
def linkContent (dataLink : UInt16) (packet : Bytes) : LinkContent :=
  if packet = [] then .other (ascii "UNKNOWN")
  else if dataLink = dltRaw then rawContent packet
  else if dataLink = dltLinuxSll then linuxSllContent packet
  else ethernetContent dataLink packet

/-- What the rest of the parser uses of a header: its protocol, its addresses, printed, and the
bytes behind it. -/
structure IpHeader where
  protocol : UInt8
  source : Bytes
  destination : Bytes
  transport : Bytes
  deriving DecidableEq, Repr

/-- The length of an IPv4 header by its first byte. -/
def headerLength (datagram : Bytes) : ℕ := (datagram.getD 0 0 &&& 0x0F).toNat * 4

/-- The header of a datagram that has one of its version. -/
def ipHeader : IpVersion → Bytes → Option IpHeader
  | .v4, datagram =>
    if 20 ≤ headerLength datagram ∧ headerLength datagram ≤ datagram.length then
      some ⟨datagram.getD 9 0, printIPv4 (slice datagram 12 4), printIPv4 (slice datagram 16 4),
        datagram.drop (headerLength datagram)⟩
    else none
  | .v6, datagram =>
    if 40 ≤ datagram.length then
      some ⟨datagram.getD 6 0, printIPv6 (slice datagram 8 16), printIPv6 (slice datagram 24 16),
        datagram.drop 40⟩
    else none

/-- The fields that a transport header alone gives. -/
def transportFields (label : Bytes) (protocol : UInt8) (transport : Bytes) (out : ParsedL4Fields) :
    ParsedL4Fields :=
  Id.run (parseTransport (PacketAccess.plain transport) label protocol 0 transport.length out)

/-- The fields that an accepted header and the bytes behind it give. -/
def IpHeader.fields (version : IpVersion) (header : IpHeader) : ParsedL4Fields :=
  transportFields version.label header.protocol header.transport
    { srcIp := header.source, dstIp := header.destination }

/-- The fields of what a frame carries. -/
def LinkContent.fields : LinkContent → ParsedL4Fields
  | .datagram version bytes => ((ipHeader version bytes).map (IpHeader.fields version)).getD {}
  | .other label => { l4Protocol := label }

section Reads

variable {packet : Bytes} {pos : ℕ}

/-- The bytes of a window, by their positions in the whole. -/
theorem getD_of_slice {size i : ℕ} {field : Bytes} (h : slice packet pos size = field)
    (hi : i < size) : packet.getD (pos + i) 0 = field.getD i 0 := by
  rw [← h, slice, List.getD_eq_getElem?_getD, List.getD_eq_getElem?_getD,
    List.getElem?_take_of_lt hi, List.getElem?_drop]

theorem plain_minus (packet : Bytes) : (PacketAccess.plain packet).minus =
    fun remaining count => pure (sizeT (remaining + 2 ^ 64 - count)) := rfl

theorem run_minus {remaining count : ℕ} (h : count ≤ remaining) (hremaining : remaining < 2 ^ 64) :
    Id.run ((PacketAccess.plain packet).minus remaining count) = remaining - count := by
  have hsum : remaining + 2 ^ 64 - count = remaining - count + 2 ^ 64 := by omega
  rw [plain_minus, Id.run_pure, hsum, sizeT, Nat.add_mod_right, Nat.mod_eq_of_lt (by omega)]

/-- Two bytes in network order. -/
theorem toNat_readBE16 :
    (Id.run (readBE16 (PacketAccess.plain packet) pos)).toNat =
      256 * (packet.getD pos 0).toNat + (packet.getD (pos + 1) 0).toNat := by
  change (((packet.getD pos 0).toUInt16 <<< 8) ||| (packet.getD (pos + 1) 0).toUInt16).toNat = _
  rw [UInt16.or_comm, uint16_of_bytes]
  simp only [leValue]
  omega

/-- A number is read back from its two bytes. -/
theorem beField_of_slice {value : UInt16} (h : slice packet pos 2 = beBytes value) :
    beField packet pos = value := by
  have hvalue := value.toNat_lt
  have hcount : (8 : UInt16).toNat % 16 = 8 := rfl
  have hhigh : (packet.getD pos 0).toNat = value.toNat / 256 := by
    have hbyte := getD_of_slice h (i := 0) Nat.two_pos
    rw [Nat.add_zero] at hbyte
    rw [hbyte]
    change (value >>> 8).toUInt8.toNat = _
    rw [UInt16.toNat_toUInt8, UInt16.toNat_shiftRight, hcount, Nat.shiftRight_eq_div_pow]
    omega
  have hlow : (packet.getD (pos + 1) 0).toNat = value.toNat % 256 := by
    rw [getD_of_slice h Nat.one_lt_two]
    exact UInt16.toNat_toUInt8 value
  apply UInt16.toNat_inj.mp
  rw [beField, toNat_readBE16, hhigh, hlow]
  omega

/-- An address is printed from its four bytes. -/
theorem run_formatIPv4 {address : Bytes} (haddress : address.length = 4)
    (h : slice packet pos 4 = address) :
    Id.run (formatIPv4 (PacketAccess.plain packet) pos) = printIPv4 address := by
  have hwindow : pos + 4 ≤ packet.length := by
    have hlength := congrArg List.length h
    rw [slice, List.length_take, List.length_drop, haddress] at hlength
    omega
  rw [← h, slice_four packet pos hwindow]
  rfl

/-- An address is printed from its eight groups. -/
theorem run_formatIPv6 {address : Bytes} (h : slice packet pos 16 = address) :
    Id.run (formatIPv6 (PacketAccess.plain packet) pos) = printIPv6 address := by
  rw [formatIPv6, Id.run_bind, List.idRun_mapM, Id.run_pure, List.map_map, printIPv6]
  congr 1
  apply List.map_congr_left
  intro i hi
  have hsmall : i < 8 := List.mem_range.mp hi
  have hlow := getD_of_slice h (show i * 2 + 1 < 16 by omega)
  rw [Function.comp_apply, toNat_readBE16, getD_of_slice h (show i * 2 < 16 by omega), Nat.add_assoc,
    hlow]

end Reads

section Headers

variable (access : PacketAccess Id) {cursor remaining : ℕ}

/-- A complete IPv4 header leaves the rest to its transport protocol. -/
theorem parseIPv4_eq {size rest : ℕ} {first protocol : UInt8} {source destination : Bytes}
    (hfirst : Id.run (access.read cursor) = first) (hsize : (first &&& 0x0F).toNat * 4 = size)
    (hwhole : 20 ≤ size ∧ size ≤ remaining)
    (hprotocol : Id.run (access.read (cursor + 9)) = protocol)
    (hsource : Id.run (formatIPv4 access (cursor + 12)) = source)
    (hdestination : Id.run (formatIPv4 access (cursor + 16)) = destination)
    (hrest : Id.run (access.minus remaining size) = rest) :
    Id.run (parseIPv4 access cursor remaining) =
      Id.run (parseTransport access (ascii "IP_") protocol (cursor + size) rest
        { srcIp := source, dstIp := destination }) := by
  have hlong : ¬ remaining < 20 := by omega
  have hheader : ¬ (size < 20 ∨ remaining < size) := by omega
  simp only [parseIPv4, if_neg hlong, Id.run_bind, hfirst, hsize, if_neg hheader, hprotocol, hsource,
    hdestination, hrest]

/-- A complete IPv6 header leaves the rest to its next-header field. -/
theorem parseIPv6_eq {rest : ℕ} {protocol : UInt8} {source destination : Bytes}
    (hwhole : 40 ≤ remaining) (hprotocol : Id.run (access.read (cursor + 6)) = protocol)
    (hsource : Id.run (formatIPv6 access (cursor + 8)) = source)
    (hdestination : Id.run (formatIPv6 access (cursor + 24)) = destination)
    (hrest : Id.run (access.minus remaining 40) = rest) :
    Id.run (parseIPv6 access cursor remaining) =
      Id.run (parseTransport access (ascii "IP6_") protocol (cursor + 40) rest
        { srcIp := source, dstIp := destination }) := by
  simp only [parseIPv6, if_neg (not_lt.mpr hwhole), Id.run_bind, hprotocol, hsource, hdestination,
    hrest]

end Headers

section Fronts

variable (front bytes : Bytes)

/-- Behind a front the bytes are read as on their own. -/
theorem read_append (i : ℕ) : (PacketAccess.plain (front ++ bytes)).read (front.length + i) =
    (PacketAccess.plain bytes).read i := by
  change pure _ = pure _
  rw [List.getD_append_right _ _ _ _ (Nat.le_add_right _ _), Nat.add_sub_cancel_left]

theorem beField_append (i : ℕ) :
    beField (front ++ bytes) (front.length + i) = beField bytes i := by
  simp only [beField, readBE16, Nat.add_assoc, read_append]

/-- The bytes in front of the transport header do not matter. -/
theorem parseTransport_append (label : Bytes) (protocol : UInt8) (out : ParsedL4Fields) :
    Id.run (parseTransport (PacketAccess.plain (front ++ bytes)) label protocol front.length
      bytes.length out) = transportFields label protocol bytes out := by
  have hstart := read_append front bytes 0
  rw [Nat.add_zero] at hstart
  simp only [transportFields, parseTransport, readBE16, Nat.add_assoc, Nat.zero_add, read_append,
    hstart]

/-- Behind any front an IPv4 datagram is parsed as its bytes say. -/
theorem parseIPv4_fields (hlength : bytes.length < 2 ^ 64) :
    Id.run (parseIPv4 (PacketAccess.plain (front ++ bytes)) front.length bytes.length) =
      (LinkContent.datagram .v4 bytes).fields := by
  have hread (i : ℕ) : Id.run ((PacketAccess.plain (front ++ bytes)).read (front.length + i)) =
      bytes.getD i 0 := congrArg Id.run (read_append front bytes i)
  have hfirst := hread 0
  rw [Nat.add_zero] at hfirst
  rw [LinkContent.fields, ipHeader]
  by_cases hheader : 20 ≤ headerLength bytes ∧ headerLength bytes ≤ bytes.length
  · have haddress (pos : ℕ) (hpos : pos + 4 ≤ bytes.length) :
        Id.run (formatIPv4 (PacketAccess.plain (front ++ bytes)) (front.length + pos)) =
          printIPv4 (slice bytes pos 4) :=
      run_formatIPv4 (slice_length bytes pos 4 hpos) (slice_append_right front bytes pos 4)
    have hsize : (bytes.getD 0 0 &&& 0x0F).toNat * 4 = headerLength bytes := rfl
    have hrest := @run_minus (front ++ bytes) _ _ hheader.2 hlength
    have htransport := parseTransport_append (front ++ bytes.take (headerLength bytes))
      (bytes.drop (headerLength bytes)) (ascii "IP_") (bytes.getD 9 0)
        { srcIp := printIPv4 (slice bytes 12 4), dstIp := printIPv4 (slice bytes 16 4) }
    rw [List.append_assoc, List.take_append_drop, List.length_append,
      List.length_take_of_le hheader.2, List.length_drop] at htransport
    rw [if_pos hheader, parseIPv4_eq _ hfirst hsize hheader (hread 9) (haddress 12 (by omega))
      (haddress 16 (by omega)) hrest]
    exact htransport
  · rw [if_neg hheader, parseIPv4]
    split
    · rfl
    · rename_i hlong
      have hrefused : headerLength bytes < 20 ∨ bytes.length < headerLength bytes := by omega
      rw [headerLength] at hrefused
      simp only [Id.run_bind, hfirst, if_pos hrefused]
      rfl

/-- Behind any front an IPv6 datagram is parsed as its bytes say. -/
theorem parseIPv6_fields (hlength : bytes.length < 2 ^ 64) :
    Id.run (parseIPv6 (PacketAccess.plain (front ++ bytes)) front.length bytes.length) =
      (LinkContent.datagram .v6 bytes).fields := by
  rw [LinkContent.fields, ipHeader]
  by_cases hheader : 40 ≤ bytes.length
  · have haddress (pos : ℕ) :
        Id.run (formatIPv6 (PacketAccess.plain (front ++ bytes)) (front.length + pos)) =
          printIPv6 (slice bytes pos 16) :=
      run_formatIPv6 (slice_append_right front bytes pos 16)
    have hrest := @run_minus (front ++ bytes) _ _ hheader hlength
    have htransport := parseTransport_append (front ++ bytes.take 40) (bytes.drop 40)
      (ascii "IP6_") (bytes.getD 6 0)
        { srcIp := printIPv6 (slice bytes 8 16), dstIp := printIPv6 (slice bytes 24 16) }
    rw [List.append_assoc, List.take_append_drop, List.length_append,
      List.length_take_of_le hheader, List.length_drop] at htransport
    have hprotocol : Id.run ((PacketAccess.plain (front ++ bytes)).read (front.length + 6)) =
        bytes.getD 6 0 := congrArg Id.run (read_append front bytes 6)
    rw [if_pos hheader, parseIPv6_eq _ hheader hprotocol (haddress 8) (haddress 24) hrest]
    exact htransport
  · rw [if_neg hheader, parseIPv6, if_pos (not_le.mp hheader)]
    rfl

end Fronts

section Content

variable {packet : Bytes} (hlength : packet.length < 2 ^ 64)

include hlength

/-- The dispatch on an EtherType, with the cursor at any position of the packet. -/
theorem run_dispatch (label : Bytes) (etherType : UInt16) {cursor : ℕ}
    (hcursor : cursor ≤ packet.length) :
    (if etherType = 0x0800 then
        Id.run (parseIPv4 (PacketAccess.plain packet) cursor (packet.length - cursor))
      else if etherType = 0x86DD then
        Id.run (parseIPv6 (PacketAccess.plain packet) cursor (packet.length - cursor))
      else { l4Protocol := label ++ paddedHexadecimal 4 etherType.toNat }) =
      (etherContent label etherType (packet.drop cursor)).fields := by
  have hrest : (packet.drop cursor).length < 2 ^ 64 := by
    rw [List.length_drop]
    omega
  have hv4 := parseIPv4_fields (packet.take cursor) (packet.drop cursor) hrest
  have hv6 := parseIPv6_fields (packet.take cursor) (packet.drop cursor) hrest
  rw [List.take_append_drop, List.length_take_of_le hcursor, List.length_drop] at hv4 hv6
  unfold etherContent
  split
  · exact hv4
  · split
    · exact hv6
    · rfl

theorem run_minus_of_le {remaining count : ℕ} (hcount : count ≤ remaining)
    (hremaining : remaining ≤ packet.length) :
    Id.run ((PacketAccess.plain packet).minus remaining count) = remaining - count :=
  run_minus hcount (by omega)

section Links

variable (hsome : ¬ ((false : Bool) = true ∨ packet.length = 0))

include hsome

theorem parseL4Fields_rawContent :
    Id.run (parseL4Fields (PacketAccess.plain packet) dltRaw false packet.length) =
      (rawContent packet).fields := by
  have hfirst : Id.run ((PacketAccess.plain packet).read 0) = packet.getD 0 0 := rfl
  have hv4 := parseIPv4_fields [] packet hlength
  have hv6 := parseIPv6_fields [] packet hlength
  rw [List.nil_append, List.length_nil] at hv4 hv6
  rw [parseL4Fields, if_neg hsome, if_pos rfl, rawContent, Id.run_bind, hfirst]
  by_cases hfour : packet.getD 0 0 >>> 4 = 4
  · rw [if_pos hfour, if_pos hfour]
    exact hv4
  · rw [if_neg hfour, if_neg hfour, Id.run_bind, hfirst]
    by_cases hsix : packet.getD 0 0 >>> 4 = 6
    · rw [if_pos hsix, if_pos hsix]
      exact hv6
    · rw [if_neg hsix, if_neg hsix]
      rfl

theorem parseL4Fields_linuxSllContent :
    Id.run (parseL4Fields (PacketAccess.plain packet) dltLinuxSll false packet.length) =
      (linuxSllContent packet).fields := by
  have hraw : dltLinuxSll ≠ dltRaw := by decide
  rw [parseL4Fields, if_neg hsome, if_neg hraw, if_pos rfl, linuxSllContent]
  by_cases hshort : packet.length < 16
  · rw [if_pos hshort, if_pos hshort]
    rfl
  · rw [if_neg hshort, if_neg hshort, Id.run_bind, ← beField, Id.run_bind,
      run_minus_of_le hlength (not_lt.mp hshort) (le_refl _), apply_ite Id.run, apply_ite Id.run]
    exact run_dispatch hlength _ _ (not_lt.mp hshort)

theorem parseL4Fields_ethernetContent {dataLink : UInt16} (hraw : dataLink ≠ dltRaw)
    (hsll : dataLink ≠ dltLinuxSll) :
    Id.run (parseL4Fields (PacketAccess.plain packet) dataLink false packet.length) =
      (ethernetContent dataLink packet).fields := by
  rw [parseL4Fields, if_neg hsome, if_neg hraw, if_neg hsll, ethernetContent]
  by_cases hshort : packet.length < 14
  · rw [if_pos hshort, if_pos hshort]
    rfl
  · have htag : packet.length - 14 ≥ 4 ↔ 18 ≤ packet.length := by omega
    rw [if_neg hshort, if_neg hshort, Id.run_bind, ← beField, Id.run_bind,
      run_minus_of_le hlength (not_lt.mp hshort) (le_refl _)]
    by_cases htagged :
        (beField packet 12 = 0x8100 ∨ beField packet 12 = 0x88A8) ∧ 18 ≤ packet.length
    · have hinner : Id.run ((PacketAccess.plain packet).minus (packet.length - 14) 4) =
          packet.length - 18 := by
        rw [run_minus_of_le hlength (by omega) (by omega)]
        omega
      rw [if_pos htagged, if_pos ⟨htagged.1, htag.mpr htagged.2⟩, Id.run_bind, ← beField,
        Id.run_bind, hinner]
      exact run_dispatch hlength _ _ htagged.2
    · rw [if_neg htagged, if_neg fun h => htagged ⟨h.1, htag.mp h.2⟩]
      exact run_dispatch hlength _ _ (not_lt.mp hshort)

end Links

/-- `ParseL4Fields` gives the fields of what the frame carries. -/
theorem l4Fields_eq_content (dataLink : UInt16) :
    l4Fields dataLink packet = (linkContent dataLink packet).fields := by
  rw [l4Fields, linkContent]
  by_cases hempty : packet = []
  · rw [if_pos hempty, parseL4Fields, if_pos (.inl (List.isEmpty_iff.mpr hempty))]
    rfl
  · have hsome : ¬ ((false : Bool) = true ∨ packet.length = 0) := by
      simpa using hempty
    rw [if_neg hempty, List.isEmpty_eq_false_iff.mpr hempty]
    by_cases hraw : dataLink = dltRaw
    · rw [if_pos hraw, hraw]
      exact parseL4Fields_rawContent hlength hsome
    · rw [if_neg hraw]
      by_cases hsll : dataLink = dltLinuxSll
      · rw [if_pos hsll, hsll]
        exact parseL4Fields_linuxSllContent hlength hsome
      · rw [if_neg hsll]
        exact parseL4Fields_ethernetContent hlength hsome hraw hsll

end Content

section Transport

/-- The length of a TCP header by its thirteenth byte. -/
def tcpHeaderLength (transport : Bytes) : ℕ :=
  ((transport.getD 12 0 >>> 4) &&& 0x0F).toNat * 4

/-- The fields with the ports that the bytes behind a header start with. -/
def ParsedL4Fields.withPorts (label transport : Bytes) (out : ParsedL4Fields) : ParsedL4Fields :=
  { out with
    hasPorts := true, srcPort := Int32.ofNat (beField transport 0).toNat,
    dstPort := Int32.ofNat (beField transport 2).toNat, l4Protocol := label }

/-- What the bytes behind a header give, by the protocol: a TCP header with a bad length of its own
leaves the fields as they were. -/
theorem transportFields_eq (label : Bytes) (protocol : UInt8) (transport : Bytes)
    (out : ParsedL4Fields) :
    transportFields label protocol transport out =
      if protocol = 6 ∧ 20 ≤ transport.length then
        if 20 ≤ tcpHeaderLength transport ∧ tcpHeaderLength transport ≤ transport.length then
          out.withPorts (ascii "TCP") transport
        else out
      else if protocol = 17 ∧ 8 ≤ transport.length then out.withPorts (ascii "UDP") transport
      else { out with l4Protocol := label ++ decimal protocol.toNat } := by
  have hoffset : Id.run ((PacketAccess.plain transport).read (0 + 12)) = transport.getD 12 0 := rfl
  simp only [transportFields, parseTransport, apply_ite Id.run, Id.run_bind, Id.run_pure, hoffset]
  rfl

/-- The bytes behind an IP header have the form of a whole transport header of a size: TCP with a
legal length of its own, or UDP. -/
inductive HeaderForm (protocol : UInt8) (transport : Bytes) : ℕ → Prop
  | tcp (protocol_eq : protocol = 6) (legal : 20 ≤ tcpHeaderLength transport)
      (whole : tcpHeaderLength transport ≤ transport.length) :
      HeaderForm protocol transport (tcpHeaderLength transport)
  | udp (protocol_eq : protocol = 17) (whole : 8 ≤ transport.length) :
      HeaderForm protocol transport 8

theorem HeaderForm.le_length {protocol : UInt8} {transport : Bytes} {size : ℕ}
    (h : HeaderForm protocol transport size) : 8 ≤ size ∧ size ≤ transport.length := by
  cases h with
  | tcp _ legal whole => exact ⟨by omega, whole⟩
  | udp _ whole => exact ⟨le_refl 8, whole⟩

theorem HeaderForm.unique {protocol : UInt8} {transport : Bytes} {size size' : ℕ}
    (h : HeaderForm protocol transport size) (h' : HeaderForm protocol transport size') :
    size = size' := by
  cases h with
  | tcp protocol_eq _ _ =>
    cases h' with
    | tcp _ _ _ => rfl
    | udp protocol_eq' _ => cases protocol_eq.symm.trans protocol_eq'
  | udp protocol_eq _ =>
    cases h' with
    | tcp protocol_eq' _ _ => cases protocol_eq.symm.trans protocol_eq'
    | udp _ _ => rfl

/-- The bytes behind a header have the form of a transport header and give its ports, or they give
no more than a label. -/
theorem transportFields_cases (label : Bytes) (protocol : UInt8) (transport : Bytes)
    (out : ParsedL4Fields) :
    (∃ size name, HeaderForm protocol transport size ∧
        transportFields label protocol transport out = out.withPorts name transport) ∨
      (∀ size, ¬ HeaderForm protocol transport size) ∧
        ∃ name, transportFields label protocol transport out = { out with l4Protocol := name } := by
  rw [transportFields_eq]
  split
  · rename_i htcp
    split
    · rename_i hwhole
      exact .inl ⟨_, ascii "TCP", .tcp htcp.1 hwhole.1 hwhole.2, rfl⟩
    · rename_i hbroken
      refine .inr ⟨?_, out.l4Protocol, rfl⟩
      rintro _ (⟨-, legal, whole⟩ | ⟨protocol_eq, -⟩)
      · exact hbroken ⟨legal, whole⟩
      · cases htcp.1.symm.trans protocol_eq
  · rename_i htcp
    split
    · rename_i hudp
      exact .inl ⟨8, ascii "UDP", .udp hudp.1 hudp.2, rfl⟩
    · rename_i hudp
      refine .inr ⟨?_, _, rfl⟩
      rintro _ (⟨protocol_eq, legal, whole⟩ | ⟨protocol_eq, whole⟩)
      · exact htcp ⟨protocol_eq, legal.trans whole⟩
      · exact hudp ⟨protocol_eq, whole⟩

/-- A text that starts otherwise is another text. -/
theorem append_ne_of_head {front rest other : Bytes} (hfront : front ≠ [])
    (hhead : front.head? ≠ other.head?) : front ++ rest ≠ other := by
  rintro rfl
  rw [List.head?_append_of_ne_nil front hfront] at hhead
  exact hhead rfl

/-- The label that the fields of a datagram start with is no link label. -/
theorem datagram_label_ne (version : IpVersion) (bytes rest : Bytes) :
    (LinkContent.datagram version bytes).fields.l4Protocol ≠ ascii "ETH_0x" ++ rest := by
  have hother (label : Bytes) (hhead : (ascii "ETH_0x").head? ≠ label.head?) :
      label ≠ ascii "ETH_0x" ++ rest :=
    (append_ne_of_head (by decide) hhead).symm
  have hlabel (n : ℕ) : version.label ++ decimal n ≠ ascii "ETH_0x" ++ rest := by
    cases version with
    | v4 => exact hother _ (show some 0x45 ≠ some 0x49 by decide)
    | v6 => exact hother _ (show some 0x45 ≠ some 0x49 by decide)
  rw [LinkContent.fields]
  cases ipHeader version bytes with
  | none => exact hother (ascii "UNKNOWN") (by decide)
  | some header =>
    rw [Option.map_some, Option.getD_some, IpHeader.fields, transportFields_eq]
    split
    · split
      · exact hother (ascii "TCP") (by decide)
      · exact hother (ascii "UNKNOWN") (by decide)
    · split
      · exact hother (ascii "UDP") (by decide)
      · exact hlabel _

end Transport

end PqcapReader
