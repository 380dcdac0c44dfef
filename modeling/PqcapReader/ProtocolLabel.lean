import PqcapReader.FrameLayers
import PqcapReader.Addresses

/-!
# The protocol label

Behind an accepted IP header every way through the parser sets a label that tells the
protocol of the header, except one: for a TCP segment whose own header length is illegal or
reaches behind the captured bytes, the label stays what it was at the start.
-/

namespace PqcapReader

open ByteCodec

/-- The labels of the packets of a protocol. -/
inductive Labels (version : IpVersion) (protocol : UInt8) : Bytes → Prop
  | tcp (protocol_eq : protocol = 6) : Labels version protocol (ascii "TCP")
  | udp (protocol_eq : protocol = 17) : Labels version protocol (ascii "UDP")
  | number : Labels version protocol (version.label ++ decimal protocol.toNat)

/-- The labels of the two protocols with ports. -/
def NamesPorts (label : Bytes) : Prop := label = ascii "TCP" ∨ label = ascii "UDP"

instance (label : Bytes) : Decidable (NamesPorts label) :=
  inferInstanceAs (Decidable (label = ascii "TCP" ∨ label = ascii "UDP"))

/-- The IP header that is accepted behind a link header. -/
def LinkContent.header : LinkContent → Option (IpVersion × IpHeader)
  | .datagram version bytes => (ipHeader version bytes).map (version, ·)
  | .other _ => none

/-- Behind the header are enough bytes for a TCP header, but not for one of the length that they
give. -/
structure IpHeader.BrokenTcp (header : IpHeader) : Prop where
  protocol_eq : header.protocol = 6
  captured : 20 ≤ header.transport.length
  broken : ¬ (20 ≤ tcpHeaderLength header.transport ∧
    tcpHeaderLength header.transport ≤ header.transport.length)

section Labels

variable {version version' : IpVersion} {protocol protocol' : UInt8} {label : Bytes}

theorem numberLabel_ne (rest : Bytes) {other : Bytes} (hhead : other.head? ≠ some 0x49) :
    version.label ++ rest ≠ other := by
  cases version with
  | v4 => exact append_ne_of_head (by decide) hhead.symm
  | v6 => exact append_ne_of_head (by decide) hhead.symm

/-- The version and the number can be read off a label. -/
theorem numberLabel_inj {rest rest' : Bytes}
    (h : version.label ++ rest = version'.label ++ rest') : version = version' ∧ rest = rest' := by
  have hthird := congrArg (fun text => text.getD 2 0) h
  cases version with
  | v4 =>
    cases version' with
    | v4 => exact ⟨rfl, List.append_cancel_left h⟩
    | v6 => exact absurd (show (0x5F : UInt8) = 0x36 from hthird) (by decide)
  | v6 =>
    cases version' with
    | v4 => exact absurd (show (0x36 : UInt8) = 0x5F from hthird) (by decide)
    | v6 => exact ⟨rfl, List.append_cancel_left h⟩

/-- A label tells the protocol. -/
theorem Labels.protocol_unique (h : Labels version protocol label)
    (h' : Labels version' protocol' label) : protocol = protocol' := by
  generalize hlabel : label = label' at h'
  cases h with
  | tcp protocol_eq =>
    cases h' with
    | tcp protocol_eq' => exact protocol_eq.trans protocol_eq'.symm
    | udp _ => exact absurd hlabel (by decide)
    | number => exact absurd hlabel.symm (numberLabel_ne _ (by decide))
  | udp protocol_eq =>
    cases h' with
    | tcp _ => exact absurd hlabel (by decide)
    | udp protocol_eq' => exact protocol_eq.trans protocol_eq'.symm
    | number => exact absurd hlabel.symm (numberLabel_ne _ (by decide))
  | number =>
    cases h' with
    | tcp _ => exact absurd hlabel (numberLabel_ne _ (by decide))
    | udp _ => exact absurd hlabel (numberLabel_ne _ (by decide))
    | number =>
      have hnumber := decimal_injective (numberLabel_inj hlabel).2
      exact UInt8.toNat_inj.mp hnumber

theorem Labels.ne_unknown (h : Labels version protocol label) : label ≠ ascii "UNKNOWN" := by
  cases h with
  | tcp _ => decide
  | udp _ => decide
  | number => exact numberLabel_ne _ (by decide)

end Labels

section Headers

variable (version : IpVersion) (header : IpHeader)

theorem IpHeader.fields_addresses :
    (header.fields version).srcIp = header.source ∧
      (header.fields version).dstIp = header.destination := by
  rw [IpHeader.fields]
  rcases transportFields_cases version.label header.protocol header.transport
    { srcIp := header.source, dstIp := header.destination }
    with ⟨_, _, -, h⟩ | ⟨-, _, h⟩
  · rw [h]
    exact ⟨rfl, rfl⟩
  · rw [h]
    exact ⟨rfl, rfl⟩

theorem IpHeader.label_broken (h : header.BrokenTcp) :
    header.fields version =
      { srcIp := header.source, dstIp := header.destination, l4Protocol := ascii "UNKNOWN" } := by
  rw [IpHeader.fields, transportFields_eq, if_pos ⟨h.protocol_eq, h.captured⟩, if_neg h.broken]

/-- The way through the parser that leaves the label out is the only one. -/
theorem IpHeader.label_intact (h : ¬ header.BrokenTcp) :
    Labels version header.protocol (header.fields version).l4Protocol ∧
      ((header.fields version).hasPorts = true ↔
        NamesPorts (header.fields version).l4Protocol) := by
  rw [IpHeader.fields, transportFields_eq]
  split
  · rename_i htcp
    rw [if_pos (not_not.mp fun hbroken => h ⟨htcp.1, htcp.2, hbroken⟩)]
    exact ⟨.tcp htcp.1, iff_of_true rfl (.inl rfl)⟩
  · split
    · rename_i hudp
      exact ⟨.udp hudp.1, iff_of_true rfl (.inr rfl)⟩
    · refine ⟨.number, iff_of_false Bool.false_ne_true ?_⟩
      rintro (hname | hname)
      · exact numberLabel_ne _ (by decide) hname
      · exact numberLabel_ne _ (by decide) hname

variable {version header}

theorem ipHeader_addresses {datagram : Bytes} (h : ipHeader version datagram = some header) :
    header.source ≠ [] ∧ header.destination ≠ [] := by
  cases version with
  | v4 =>
    obtain ⟨hlength, hheader⟩ := Option.ite_none_right_eq_some.mp h
    cases hheader
    exact ⟨printIPv4_ne_nil (slice_length datagram 12 4 (by omega)),
      printIPv4_ne_nil (slice_length datagram 16 4 (by omega))⟩
  | v6 =>
    obtain ⟨-, hheader⟩ := Option.ite_none_right_eq_some.mp h
    cases hheader
    exact ⟨printIPv6_ne_nil _, printIPv6_ne_nil _⟩

theorem LinkContent.fields_of_header {content : LinkContent}
    (h : content.header = some (version, header)) :
    content.fields = header.fields version ∧ header.source ≠ [] ∧ header.destination ≠ [] := by
  cases content with
  | datagram version' bytes =>
    obtain ⟨accepted, haccepted, hpair⟩ := Option.map_eq_some_iff.mp h
    cases hpair
    refine ⟨?_, ipHeader_addresses haccepted⟩
    rw [LinkContent.fields, haccepted]
    rfl
  | other name => cases h

end Headers

section Links

theorem not_namesPorts_append {front : Bytes} (rest : Bytes) (hfront : front ≠ [])
    (hhead : front.head? ≠ some 0x54 ∧ front.head? ≠ some 0x55) : ¬ NamesPorts (front ++ rest) := by
  have htcp : (ascii "TCP").head? = some 0x54 := by decide
  have hudp : (ascii "UDP").head? = some 0x55 := by decide
  rintro (h | h)
  · exact append_ne_of_head hfront (htcp ▸ hhead.1) h
  · exact append_ne_of_head hfront (hudp ▸ hhead.2) h

theorem etherContent_not_namesPorts {front bytes label : Bytes} {etherType : UInt16}
    (hfront : front ≠ []) (hhead : front.head? ≠ some 0x54 ∧ front.head? ≠ some 0x55)
    (h : etherContent front etherType bytes = .other label) : ¬ NamesPorts label := by
  unfold etherContent at h
  split at h
  · cases h
  · split at h
    · cases h
    · cases h
      exact not_namesPorts_append _ hfront hhead

variable {dataLink : UInt16} {packet label : Bytes}

theorem linkContent_not_namesPorts (h : linkContent dataLink packet = .other label) :
    ¬ NamesPorts label := by
  unfold linkContent at h
  split at h
  · cases h
    decide
  · split at h
    · unfold rawContent at h
      split at h
      · cases h
      · split at h
        · cases h
        · cases h
          decide
    · split at h
      · unfold linuxSllContent at h
        split at h
        · cases h
          decide
        · exact etherContent_not_namesPorts (by decide) (by decide) h
      · unfold ethernetContent at h
        split at h
        · cases h
          exact not_namesPorts_append _ (by decide) (by decide)
        · split at h
          · exact etherContent_not_namesPorts (by decide) (by decide) h
          · exact etherContent_not_namesPorts (by decide) (by decide) h

/-- Without a header the fields are those of an empty result, but for a label of a protocol without
ports. -/
theorem linkContent_fields_without_header (h : (linkContent dataLink packet).header = none) :
    ∃ label, (linkContent dataLink packet).fields = { l4Protocol := label } ∧
      ¬ NamesPorts label := by
  cases hcontent : linkContent dataLink packet with
  | datagram version bytes =>
    rw [hcontent, LinkContent.header, Option.map_eq_none_iff] at h
    refine ⟨ascii "UNKNOWN", ?_, by decide⟩
    rw [LinkContent.fields, h]
    rfl
  | other label => exact ⟨label, rfl, linkContent_not_namesPorts hcontent⟩

end Links

section Frames

variable (dataLink : UInt16) (packet : Bytes)

/-- The fields of a frame agree: with an address come both, and a label that tells the protocol of
the accepted header; ports come with the labels of protocols that have them; and without an
accepted header there are neither addresses nor ports. -/
structure LabelIdentifies : Prop where
  addressed : (l4Fields dataLink packet).srcIp ≠ [] ∨ (l4Fields dataLink packet).dstIp ≠ [] →
    ((l4Fields dataLink packet).srcIp ≠ [] ∧ (l4Fields dataLink packet).dstIp ≠ []) ∧
      (l4Fields dataLink packet).l4Protocol ≠ ascii "UNKNOWN" ∧
      ∃ version header, (linkContent dataLink packet).header = some (version, header) ∧
        Labels version header.protocol (l4Fields dataLink packet).l4Protocol ∧
        ∀ version' protocol', Labels version' protocol' (l4Fields dataLink packet).l4Protocol →
          protocol' = header.protocol
  ports : (l4Fields dataLink packet).hasPorts = true ↔
    NamesPorts (l4Fields dataLink packet).l4Protocol
  unaccepted : (linkContent dataLink packet).header = none →
    (l4Fields dataLink packet).srcIp = [] ∧ (l4Fields dataLink packet).dstIp = [] ∧
      (l4Fields dataLink packet).hasPorts = false

/-- The fields of a frame agree exactly when no header with a broken TCP segment is accepted. The
length of a frame is a `uint32_t`. -/
theorem labelIdentifies_iff (hlength : packet.length < 2 ^ 32) :
    LabelIdentifies dataLink packet ↔
      ∀ version header, (linkContent dataLink packet).header = some (version, header) →
        ¬ header.BrokenTcp := by
  have hfields : l4Fields dataLink packet = (linkContent dataLink packet).fields :=
    l4Fields_eq_content (hlength.trans (by decide)) dataLink
  constructor
  · intro h version header hheader hbroken
    obtain ⟨hcontent, hsource, -⟩ := LinkContent.fields_of_header hheader
    rw [header.label_broken version hbroken] at hcontent
    rw [hcontent] at hfields
    have hunknown := (h.addressed (.inl (hfields ▸ hsource))).2.1
    rw [hfields] at hunknown
    exact hunknown rfl
  · intro h
    cases hheader : (linkContent dataLink packet).header with
    | none =>
      obtain ⟨label, hcontent, hlabel⟩ := linkContent_fields_without_header hheader
      rw [hcontent] at hfields
      refine ⟨fun haddress => ?_, ?_, fun _ => ?_⟩
      · rw [hfields] at haddress
        exact absurd rfl (or_self_iff.mp haddress)
      · rw [hfields]
        exact iff_of_false Bool.false_ne_true hlabel
      · rw [hfields]
        exact ⟨rfl, rfl, rfl⟩
    | some accepted =>
      obtain ⟨version, header⟩ := accepted
      obtain ⟨hcontent, hsource, hdestination⟩ := LinkContent.fields_of_header hheader
      obtain ⟨hlabel, hports⟩ := header.label_intact version (h version header hheader)
      obtain ⟨hsrc, hdst⟩ := header.fields_addresses version
      rw [hcontent] at hfields
      rw [← hfields] at hlabel hports hsrc hdst
      refine ⟨fun _ => ⟨⟨hsrc ▸ hsource, hdst ▸ hdestination⟩, hlabel.ne_unknown, version, header,
        hheader, hlabel, ?_⟩, hports, fun hnone => ?_⟩
      · exact fun version' protocol' hlabel' => hlabel'.protocol_unique hlabel
      · cases hheader.symm.trans hnone

end Frames

/-- A TCP segment over raw IPv4 whose header length is given as four words. -/
def brokenSegment : Bytes :=
  [0x45, 0, 0, 40, 0, 0, 0, 0, 64, 6, 0, 0, 10, 0, 0, 1, 10, 0, 0, 2] ++
    [1, 187, 200, 1, 0, 0, 0, 0, 0, 0, 0, 0, 0x40, 0x10, 0, 0, 0, 0, 0, 0]

/-- The same segment, cut short by a byte. -/
theorem labelIdentifies_shorter :
    LabelIdentifies dltRaw brokenSegment.dropLast ↔
      ∀ version header, (linkContent dltRaw brokenSegment.dropLast).header =
        some (version, header) → ¬ header.BrokenTcp :=
  labelIdentifies_iff dltRaw brokenSegment.dropLast (by decide)

/-- The label of the broken segment tells no protocol. -/
theorem brokenSegment_unlabelled :
    ¬ ∀ (dataLink : UInt16) (packet : Bytes), packet.length < 2 ^ 32 →
        LabelIdentifies dataLink packet := by
  intro h
  have haddressed := (h dltRaw brokenSegment (by decide)).addressed (.inl (by decide +kernel))
  exact haddressed.2.1 (by decide +kernel)

end PqcapReader
