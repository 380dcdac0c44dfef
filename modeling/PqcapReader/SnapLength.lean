import PqcapReader.ProtocolLabel
import PqcapReader.TransportPorts

/-!
# Frames cut by a snap length

A capture may keep only the first bytes of each frame. What `ParseL4Fields` finds in them
is not contradicted by the rest: addresses stay, and with ports everything stays. The first
138 bytes are enough for all fields, since a link header takes at most 18, an IP header at
most 60, and no more than 60 bytes of the transport header are looked at.
-/

namespace PqcapReader

open ByteCodec

section Reads

variable {bytes : Bytes} (more : Bytes)

theorem getD_append_left {i : ℕ} (h : i < bytes.length) :
    (bytes ++ more).getD i 0 = bytes.getD i 0 := List.getD_append _ _ _ _ h

theorem beField_append_left {pos : ℕ} (h : pos + 2 ≤ bytes.length) :
    beField (bytes ++ more) pos = beField bytes pos := by
  refine UInt16.toNat_inj.mp ?_
  rw [beField, beField, toNat_readBE16, toNat_readBE16, getD_append_left more (by omega),
    getD_append_left more (by omega)]

end Reads

section Layers

variable (more : Bytes)

/-- What a frame carries, with further bytes behind it. -/
def LinkContent.extend : LinkContent → LinkContent
  | .datagram version bytes => .datagram version (bytes ++ more)
  | .other label => .other label

/-- A header with further bytes behind it. -/
def IpHeader.extend (header : IpHeader) : IpHeader :=
  { header with transport := header.transport ++ more }

theorem etherContent_extend (label bytes : Bytes) (etherType : UInt16) :
    etherContent label etherType (bytes ++ more) =
      (etherContent label etherType bytes).extend more := by
  rw [etherContent, etherContent]
  split
  · rfl
  · split
    · rfl
    · rfl

/-- Any bytes are passed on by an EtherType, or a label is. -/
theorem bytes_of_etherContent {label bytes bytes' : Bytes} {etherType : UInt16}
    {version : IpVersion} (h : etherContent label etherType bytes = .datagram version bytes') :
    bytes' = bytes ∧ etherType ≠ 0x8100 ∧ etherType ≠ 0x88A8 := by
  rw [etherContent] at h
  split at h
  · rename_i hv4
    rw [LinkContent.datagram.injEq] at h
    exact ⟨h.2.symm, hv4 ▸ by decide, hv4 ▸ by decide⟩
  · split at h
    · rename_i hv6
      rw [LinkContent.datagram.injEq] at h
      exact ⟨h.2.symm, hv6 ▸ by decide, hv6 ▸ by decide⟩
    · cases h

/-- The frame goes on behind its link header, the tag of a tagged Ethernet header included. -/
structure LinkComplete (dataLink : UInt16) (packet : Bytes) : Prop where
  nonempty : packet ≠ []
  linuxSll : dataLink = dltLinuxSll → 16 ≤ packet.length
  ethernet : dataLink ≠ dltRaw → dataLink ≠ dltLinuxSll → 14 ≤ packet.length ∧
    (beField packet 12 = 0x8100 ∨ beField packet 12 = 0x88A8 → 18 ≤ packet.length)

variable {dataLink : UInt16} {packet : Bytes}

theorem LinkComplete.of_long (h : 18 ≤ packet.length) : LinkComplete dataLink packet :=
  ⟨fun hnil => absurd (hnil ▸ h) (by decide), fun _ => by omega,
    fun _ _ => ⟨by omega, fun _ => h⟩⟩

/-- A frame with a datagram is complete up to the datagram, which begins at byte 18 at the latest. -/
theorem LinkComplete.of_datagram {version : IpVersion} {bytes : Bytes}
    (h : linkContent dataLink packet = .datagram version bytes) :
    LinkComplete dataLink packet ∧ packet.length ≤ bytes.length + 18 := by
  have hsome : packet ≠ [] := by
    rintro rfl
    cases h
  rw [linkContent, if_neg hsome] at h
  split at h
  · rename_i hraw
    refine ⟨⟨hsome, fun hsll => absurd (hraw.symm.trans hsll) (by decide),
      fun hother => absurd hraw hother⟩, ?_⟩
    have hbytes : bytes = packet := by
      rw [rawContent] at h
      split at h
      · exact (LinkContent.datagram.inj h).2.symm
      · split at h
        · exact (LinkContent.datagram.inj h).2.symm
        · cases h
    rw [hbytes]
    omega
  · rename_i hraw
    split at h
    · rename_i hsll
      rw [linuxSllContent] at h
      split at h
      · cases h
      · rename_i hlong
        obtain ⟨rfl, -⟩ := bytes_of_etherContent h
        refine ⟨⟨hsome, fun _ => not_lt.mp hlong, fun _ hother => absurd hsll hother⟩, ?_⟩
        rw [List.length_drop]
        omega
    · rename_i hsll
      rw [ethernetContent] at h
      split at h
      · cases h
      · rename_i hlong
        split at h
        · rename_i htag
          obtain ⟨rfl, -⟩ := bytes_of_etherContent h
          refine ⟨⟨hsome, fun hother => absurd hother hsll,
            fun _ _ => ⟨not_lt.mp hlong, fun _ => htag.2⟩⟩, ?_⟩
          rw [List.length_drop]
          omega
        · obtain ⟨rfl, hservice, hcustomer⟩ := bytes_of_etherContent h
          refine ⟨⟨hsome, fun hother => absurd hother hsll, fun _ _ => ⟨not_lt.mp hlong,
            fun htag => (htag.elim hservice hcustomer).elim⟩⟩, ?_⟩
          rw [List.length_drop]
          omega

/-- What a frame carries behind a complete link header only grows with the frame. -/
theorem LinkComplete.extend (h : LinkComplete dataLink packet) :
    linkContent dataLink (packet ++ more) = (linkContent dataLink packet).extend more := by
  have hmore : packet ++ more ≠ [] := List.append_ne_nil_of_left_ne_nil h.nonempty more
  have hlength : (packet ++ more).length = packet.length + more.length := List.length_append
  rw [linkContent, if_neg hmore, linkContent, if_neg h.nonempty]
  by_cases hraw : dataLink = dltRaw
  · have hfirst := getD_append_left more (List.length_pos_iff.mpr h.nonempty)
    rw [if_pos hraw, if_pos hraw, rawContent, rawContent, hfirst]
    split
    · rfl
    · split
      · rfl
      · rfl
  · rw [if_neg hraw, if_neg hraw]
    by_cases hsll : dataLink = dltLinuxSll
    · have hlong := h.linuxSll hsll
      rw [if_pos hsll, if_pos hsll, linuxSllContent, linuxSllContent, if_neg (by omega),
        if_neg (by omega), beField_append_left more hlong, List.drop_append_of_le_length hlong,
        etherContent_extend]
    · obtain ⟨hlong, htagged⟩ := h.ethernet hraw hsll
      have hwhole : ¬ packet.length < 14 := not_lt.mpr hlong
      have hwhole' : ¬ (packet ++ more).length < 14 := by omega
      rw [if_neg hsll, if_neg hsll, ethernetContent, ethernetContent, if_neg hwhole,
        if_neg hwhole', beField_append_left more hlong]
      by_cases htag : beField packet 12 = 0x8100 ∨ beField packet 12 = 0x88A8
      · have hinner := htagged htag
        have hinner' : 18 ≤ (packet ++ more).length := by omega
        rw [if_pos (And.intro htag hinner'), if_pos (And.intro htag hinner),
          beField_append_left more hinner, List.drop_append_of_le_length hinner,
          etherContent_extend]
      · rw [if_neg (not_and_of_not_left _ htag), if_neg (not_and_of_not_left _ htag),
          List.drop_append_of_le_length hlong, etherContent_extend]

/-- An accepted header is that of the longer datagram too, and none is missed in sixty bytes. -/
theorem ipHeader_extend {version : IpVersion} {bytes : Bytes}
    (h : 60 ≤ bytes.length ∨ (ipHeader version bytes).isSome) :
    ipHeader version (bytes ++ more) = (ipHeader version bytes).map (IpHeader.extend more) := by
  have hlength : (bytes ++ more).length = bytes.length + more.length := List.length_append
  cases version with
  | v4 =>
    have hbound : headerLength bytes ≤ 60 := by
      have hsmall : (bytes.getD 0 0 &&& 0x0F).toNat ≤ 15 := by
        rw [UInt8.toNat_and]
        exact Nat.and_le_right
      rw [headerLength]
      omega
    have hsome : 0 < bytes.length := by
      rcases h with hlong | hheader
      · omega
      · refine List.length_pos_iff.mpr ?_
        rintro rfl
        exact absurd hheader (by decide)
    have hsame : headerLength (bytes ++ more) = headerLength bytes := by
      rw [headerLength, headerLength, getD_append_left more hsome]
    rw [ipHeader, ipHeader, hsame]
    by_cases hwhole : 20 ≤ headerLength bytes ∧ headerLength bytes ≤ bytes.length
    · have hwhole' : 20 ≤ headerLength bytes ∧ headerLength bytes ≤ (bytes ++ more).length := by
        omega
      rw [if_pos hwhole, if_pos hwhole', Option.map_some, IpHeader.extend,
        getD_append_left more (by omega), slice_append_left _ _ _ _ (by omega),
        slice_append_left _ _ _ _ (by omega), List.drop_append_of_le_length hwhole.2]
    · have hwhole' : ¬ (20 ≤ headerLength bytes ∧ headerLength bytes ≤ (bytes ++ more).length) := by
        rcases h with hlong | hheader
        · omega
        · rw [ipHeader, if_neg hwhole] at hheader
          cases hheader
      rw [if_neg hwhole, if_neg hwhole', Option.map_none]
  | v6 =>
    have hwhole : 40 ≤ bytes.length := by
      rcases h with hlong | hheader
      · omega
      · by_contra hshort
        rw [ipHeader, if_neg hshort] at hheader
        cases hheader
    have hwhole' : 40 ≤ (bytes ++ more).length := by omega
    rw [ipHeader, ipHeader, if_pos hwhole, if_pos hwhole', Option.map_some, IpHeader.extend,
      getD_append_left more (by omega), slice_append_left _ _ _ _ (by omega),
      slice_append_left _ _ _ _ (by omega), List.drop_append_of_le_length hwhole]

/-- An IP header takes at most sixty bytes. -/
theorem length_le_of_ipHeader {version : IpVersion} {bytes : Bytes} {header : IpHeader}
    (h : ipHeader version bytes = some header) : bytes.length ≤ header.transport.length + 60 := by
  cases version with
  | v4 =>
    have hsmall : (bytes.getD 0 0 &&& 0x0F).toNat ≤ 15 := by
      rw [UInt8.toNat_and]
      exact Nat.and_le_right
    rw [ipHeader] at h
    split at h
    · rename_i hwhole
      rw [← Option.some.inj h, List.length_drop]
      rw [headerLength] at hwhole ⊢
      omega
    · cases h
  | v6 =>
    rw [ipHeader] at h
    split at h
    · rw [← Option.some.inj h, List.length_drop]
      omega
    · cases h

/-- A whole transport header gives the same fields with more bytes behind it, and no more than sixty
bytes are looked at. -/
theorem transportFields_extend (label : Bytes) {protocol : UInt8} {transport : Bytes}
    (h : 60 ≤ transport.length ∨ ∃ size, HeaderForm protocol transport size)
    (out : ParsedL4Fields) :
    transportFields label protocol (transport ++ more) out =
      transportFields label protocol transport out := by
  have hlength : (transport ++ more).length = transport.length + more.length := List.length_append
  have hports (hlong : 8 ≤ transport.length) (name : Bytes) :
      out.withPorts name (transport ++ more) = out.withPorts name transport := by
    rw [ParsedL4Fields.withPorts, ParsedL4Fields.withPorts, beField_append_left more (by omega),
      beField_append_left more (by omega)]
  have hlong : 8 ≤ transport.length := by
    rcases h with hlong | ⟨size, hform⟩
    · omega
    · exact hform.le_length.1.trans hform.le_length.2
  rw [transportFields_eq, transportFields_eq]
  by_cases htcp : protocol = 6
  · have hudp : protocol ≠ 17 := by
      rw [htcp]
      decide
    have hheader : 20 ≤ transport.length ∧ (tcpHeaderLength transport ≤ transport.length ∨
        60 ≤ transport.length) := by
      rcases h with hlong | ⟨size, ⟨-, legal, whole⟩ | ⟨protocol_eq, -⟩⟩
      · exact ⟨by omega, .inr hlong⟩
      · exact ⟨legal.trans whole, .inl whole⟩
      · exact absurd protocol_eq hudp
    have hsmall : tcpHeaderLength transport ≤ 60 := by
      have hword : ((transport.getD 12 0 >>> 4) &&& 0x0F).toNat ≤ 15 := by
        rw [UInt8.toNat_and]
        exact Nat.and_le_right
      rw [tcpHeaderLength]
      omega
    have hsame : tcpHeaderLength (transport ++ more) = tcpHeaderLength transport := by
      rw [tcpHeaderLength, tcpHeaderLength, getD_append_left more (by omega)]
    have hwhole : protocol = 6 ∧ 20 ≤ transport.length := ⟨htcp, hheader.1⟩
    have hwhole' : protocol = 6 ∧ 20 ≤ (transport ++ more).length := ⟨htcp, by omega⟩
    have hiff : 20 ≤ tcpHeaderLength transport ∧
          tcpHeaderLength transport ≤ (transport ++ more).length ↔
        20 ≤ tcpHeaderLength transport ∧ tcpHeaderLength transport ≤ transport.length := by
      omega
    rw [if_pos hwhole, if_pos hwhole', hsame, hports hlong]
    simp only [hiff]
  · have hnot (size : ℕ) : ¬ (protocol = 6 ∧ 20 ≤ size) := fun h => htcp h.1
    have hlong' : 8 ≤ (transport ++ more).length := by omega
    rw [if_neg (hnot _), if_neg (hnot _), hports hlong]
    simp only [hlong, hlong', and_true]

end Layers

section Frames

variable {dataLink : UInt16} {packet : Bytes}

/-- Fields with an address or with ports are those of an accepted header. -/
theorem exists_header_of_fields (h : (linkContent dataLink packet).fields.srcIp ≠ [] ∨
      (linkContent dataLink packet).fields.dstIp ≠ [] ∨
      (linkContent dataLink packet).fields.hasPorts = true) :
    ∃ version bytes header, linkContent dataLink packet = .datagram version bytes ∧
      ipHeader version bytes = some header ∧
        (linkContent dataLink packet).fields = header.fields version := by
  cases hcontent : linkContent dataLink packet with
  | other label =>
    rw [hcontent] at h
    rcases h with h | h | h
    · exact absurd rfl h
    · exact absurd rfl h
    · cases h
  | datagram version bytes =>
    cases hheader : ipHeader version bytes with
    | none =>
      have hnone : (LinkContent.datagram version bytes).fields = {} := by
        rw [LinkContent.fields, hheader]
        rfl
      rw [hcontent, hnone] at h
      rcases h with h | h | h
      · exact absurd rfl h
      · exact absurd rfl h
      · cases h
    | some header =>
      refine ⟨version, bytes, header, rfl, hheader, ?_⟩
      rw [LinkContent.fields, hheader]
      rfl

/-- The longer frame has the same header, with more bytes behind it. -/
theorem fields_append_of_header (more : Bytes) {version : IpVersion} {bytes : Bytes}
    {header : IpHeader} (hcontent : linkContent dataLink packet = .datagram version bytes)
    (hheader : ipHeader version bytes = some header) :
    (linkContent dataLink (packet ++ more)).fields = (header.extend more).fields version := by
  rw [(LinkComplete.of_datagram hcontent).1.extend, hcontent, LinkContent.extend,
    LinkContent.fields, ipHeader_extend more (.inr (by rw [hheader]; rfl)), hheader]
  rfl

/-- The rest of a frame contradicts nothing that its first bytes have shown: addresses stay as they
are, and with ports all fields do. In 138 bytes all fields show. -/
theorem l4Fields_of_prefix {short : Bytes} (hshort : short <+: packet)
    (hlength : packet.length < 2 ^ 32) :
    ((l4Fields dataLink short).srcIp ≠ [] ∨ (l4Fields dataLink short).dstIp ≠ [] →
        (l4Fields dataLink packet).srcIp = (l4Fields dataLink short).srcIp ∧
          (l4Fields dataLink packet).dstIp = (l4Fields dataLink short).dstIp) ∧
      ((l4Fields dataLink short).hasPorts = true →
        l4Fields dataLink packet = l4Fields dataLink short) ∧
      (138 ≤ short.length → l4Fields dataLink packet = l4Fields dataLink short) := by
  obtain ⟨more, rfl⟩ := hshort
  have hsmall : short.length < 2 ^ 64 := by
    rw [List.length_append] at hlength
    omega
  rw [l4Fields_eq_content hsmall, l4Fields_eq_content (hlength.trans (by decide))]
  refine ⟨fun h => ?_, fun h => ?_, fun h => ?_⟩
  · obtain ⟨version, bytes, header, hcontent, hheader, hfields⟩ :=
      exists_header_of_fields (h.imp_right .inl)
    rw [fields_append_of_header more hcontent hheader, hfields, (IpHeader.fields_addresses _ _).1,
      (IpHeader.fields_addresses _ _).2, (IpHeader.fields_addresses _ _).1,
      (IpHeader.fields_addresses _ _).2]
    exact ⟨rfl, rfl⟩
  · obtain ⟨version, bytes, header, hcontent, hheader, hfields⟩ :=
      exists_header_of_fields (.inr (.inr h))
    rw [hfields] at h ⊢
    rw [fields_append_of_header more hcontent hheader]
    have hform : ∃ size, HeaderForm header.protocol header.transport size := by
      rcases transportFields_cases version.label header.protocol header.transport
        { srcIp := header.source, dstIp := header.destination } with
        ⟨size, -, hform, -⟩ | ⟨-, name, hnone⟩
      · exact ⟨size, hform⟩
      · rw [IpHeader.fields, hnone] at h
        cases h
    exact transportFields_extend more _ (.inr hform) _
  · rw [(LinkComplete.of_long (by omega)).extend]
    cases hcontent : linkContent dataLink short with
    | other label => rfl
    | datagram version bytes =>
      have hdatagram := (LinkComplete.of_datagram hcontent).2
      rw [LinkContent.extend, LinkContent.fields, LinkContent.fields,
        ipHeader_extend more (.inl (by omega))]
      cases hheader : ipHeader version bytes with
      | none => rfl
      | some header =>
        have htransport := length_le_of_ipHeader hheader
        exact transportFields_extend more _ (.inl (by omega)) _

end Frames

/-- The sample segment keeps its addresses when it is cut. -/
theorem brokenSegment_of_prefix :
    ((l4Fields dltRaw (brokenSegment.take 38)).srcIp ≠ [] ∨
        (l4Fields dltRaw (brokenSegment.take 38)).dstIp ≠ [] →
        (l4Fields dltRaw brokenSegment).srcIp = (l4Fields dltRaw (brokenSegment.take 38)).srcIp ∧
          (l4Fields dltRaw brokenSegment).dstIp =
            (l4Fields dltRaw (brokenSegment.take 38)).dstIp) ∧
      ((l4Fields dltRaw (brokenSegment.take 38)).hasPorts = true →
        l4Fields dltRaw brokenSegment = l4Fields dltRaw (brokenSegment.take 38)) ∧
      (138 ≤ (brokenSegment.take 38).length →
        l4Fields dltRaw brokenSegment = l4Fields dltRaw (brokenSegment.take 38)) :=
  l4Fields_of_prefix (List.take_prefix 38 brokenSegment) (by decide)

end PqcapReader
