import PqcapReader.BlockScan
import PqcapReader.Library.Numeral

/-!
# Addresses, ports, and protocol labels

`ParseL4Fields` walks from the link header over the IP header to the transport header.
Reads of packet bytes and subtractions from the counter of remaining bytes go through
`PacketAccess`, so that a plain run and a checked run are instances of one definition.
-/

namespace PqcapReader

open ByteCodec

def dltRaw : UInt16 := 101
def dltLinuxSll : UInt16 := 113

structure ParsedL4Fields where
  srcIp : Bytes := []
  dstIp : Bytes := []
  hasPorts : Bool := false
  srcPort : Int32 := 0
  dstPort : Int32 := 0
  l4Protocol : Bytes := ascii "UNKNOWN"
  deriving DecidableEq, Repr

/-- How packet bytes are read and how `remaining` is decreased. -/
structure PacketAccess (m : Type → Type) where
  read : ℕ → m UInt8
  minus : ℕ → ℕ → m ℕ

/-- Plain reads, and the subtraction of `size_t`. -/
def PacketAccess.plain (packet : Bytes) : PacketAccess Id where
  read i := pure (packet.getD i 0)
  minus remaining count := pure (sizeT (remaining + 2 ^ 64 - count))

section Parsing

variable {m : Type → Type} [Monad m] (access : PacketAccess m)

def readBE16 (ptr : ℕ) : m UInt16 := do
  let b0 ← access.read ptr
  let b1 ← access.read (ptr + 1)
  pure ((b0.toUInt16 <<< 8) ||| b1.toUInt16)

/-- `FormatIPv4`: four decimal numbers. -/
def formatIPv4 (src : ℕ) : m Bytes := do
  let b0 ← access.read src
  let b1 ← access.read (src + 1)
  let b2 ← access.read (src + 2)
  let b3 ← access.read (src + 3)
  pure ([0x2E].intercalate
    [decimal b0.toNat, decimal b1.toNat, decimal b2.toNat, decimal b3.toNat])

/-- `FormatIPv6`: eight hexadecimal groups, none shortened. -/
def formatIPv6 (src : ℕ) : m Bytes := do
  let groups ← (List.range 8).mapM fun i => readBE16 access (src + i * 2)
  pure ([0x3A].intercalate (groups.map fun group => hexadecimal group.toNat))

/-- The end that `ParseIPv4` and `ParseIPv6` share: ports of TCP and UDP headers, and the
label for the other protocols. -/
def parseTransport (label : Bytes) (protocol : UInt8) (cursor remaining : ℕ)
    (out : ParsedL4Fields) : m ParsedL4Fields := do
  if protocol = 6 ∧ remaining ≥ 20 then
    let offset ← access.read (cursor + 12)
    let tcpHeaderLen := ((offset >>> 4) &&& 0x0F).toNat * 4
    if tcpHeaderLen ≥ 20 ∧ remaining ≥ tcpHeaderLen then
      let srcPort ← readBE16 access cursor
      let dstPort ← readBE16 access (cursor + 2)
      pure { out with
        hasPorts := true, srcPort := Int32.ofNat srcPort.toNat,
        dstPort := Int32.ofNat dstPort.toNat, l4Protocol := ascii "TCP" }
    else
      pure out
  else if protocol = 17 ∧ remaining ≥ 8 then
    let srcPort ← readBE16 access cursor
    let dstPort ← readBE16 access (cursor + 2)
    pure { out with
      hasPorts := true, srcPort := Int32.ofNat srcPort.toNat,
      dstPort := Int32.ofNat dstPort.toNat, l4Protocol := ascii "UDP" }
  else
    pure { out with l4Protocol := label ++ decimal protocol.toNat }

def parseIPv4 (cursor remaining : ℕ) : m ParsedL4Fields := do
  if remaining < 20 then
    pure {}
  else
    let first ← access.read cursor
    let ihl := (first &&& 0x0F).toNat * 4
    if ihl < 20 ∨ remaining < ihl then
      pure {}
    else
      let protocol ← access.read (cursor + 9)
      let srcIp ← formatIPv4 access (cursor + 12)
      let dstIp ← formatIPv4 access (cursor + 16)
      let remaining ← access.minus remaining ihl
      parseTransport access (ascii "IP_") protocol (cursor + ihl) remaining { srcIp, dstIp }

def parseIPv6 (cursor remaining : ℕ) : m ParsedL4Fields := do
  if remaining < 40 then
    pure {}
  else
    let nextHeader ← access.read (cursor + 6)
    let srcIp ← formatIPv6 access (cursor + 8)
    let dstIp ← formatIPv6 access (cursor + 24)
    let remaining ← access.minus remaining 40
    parseTransport access (ascii "IP6_") nextHeader (cursor + 40) remaining { srcIp, dstIp }

/-- `ParseL4Fields`; `isNull` says that the packet pointer is null. -/
def parseL4Fields (dataLink : UInt16) (isNull : Bool) (capturedLength : ℕ) :
    m ParsedL4Fields := do
  if isNull ∨ capturedLength = 0 then
    pure {}
  else if dataLink = dltRaw then
    let first ← access.read 0
    if first >>> 4 = 4 then
      parseIPv4 access 0 capturedLength
    else
      let first ← access.read 0
      if first >>> 4 = 6 then
        parseIPv6 access 0 capturedLength
      else
        pure { l4Protocol := ascii "RAW" }
  else if dataLink = dltLinuxSll then
    if capturedLength < 16 then
      pure { l4Protocol := ascii "SLL" }
    else
      let protocol ← readBE16 access 14
      let remaining ← access.minus capturedLength 16
      if protocol = 0x0800 then
        parseIPv4 access 16 remaining
      else if protocol = 0x86DD then
        parseIPv6 access 16 remaining
      else
        pure { l4Protocol := ascii "SLL_0x" ++ paddedHexadecimal 4 protocol.toNat }
  else if capturedLength < 14 then
    pure { l4Protocol := ascii "LINK_" ++ decimal dataLink.toNat }
  else
    let etherType ← readBE16 access 12
    let remaining ← access.minus capturedLength 14
    let (etherType, cursor, remaining) ←
      if (etherType = 0x8100 ∨ etherType = 0x88A8) ∧ remaining ≥ 4 then do
        let inner ← readBE16 access (14 + 2)
        let remaining ← access.minus remaining 4
        pure (inner, 18, remaining)
      else
        pure (etherType, 14, remaining)
    if etherType = 0x0800 then
      parseIPv4 access cursor remaining
    else if etherType = 0x86DD then
      parseIPv6 access cursor remaining
    else
      pure { l4Protocol := ascii "ETH_0x" ++ paddedHexadecimal 4 etherType.toNat }

end Parsing

/-- The fields that the packet table shows for a packet. -/
def l4Fields (dataLink : UInt16) (packet : Bytes) : ParsedL4Fields :=
  Id.run (parseL4Fields (PacketAccess.plain packet) dataLink packet.isEmpty packet.length)

/-- A label is never empty, all texts are printable, and ports, where present, are 16-bit
numbers. -/
structure ParsedL4Fields.WellFormed (fields : ParsedL4Fields) : Prop where
  labelled : fields.l4Protocol ≠ []
  printable : Printable fields.srcIp ∧ Printable fields.dstIp ∧ Printable fields.l4Protocol
  srcPort : 0 ≤ fields.srcPort.toInt ∧ fields.srcPort.toInt < 2 ^ 16
  dstPort : 0 ≤ fields.dstPort.toInt ∧ fields.dstPort.toInt < 2 ^ 16

/-- A 16-bit number keeps its value as an `int32_t`. -/
theorem int32_ofNat_toInt (port : UInt16) :
    0 ≤ (Int32.ofNat port.toNat).toInt ∧ (Int32.ofNat port.toNat).toInt < 2 ^ 16 := by
  have hport := port.toNat_lt
  have hvalue : (Int32.ofNat port.toNat).toInt = port.toNat := by
    rw [Int32.toInt_ofNat_of_lt (by omega)]
  rw [hvalue]
  omega

/-- A label of the source: not empty, and printable. -/
def IsLabel (label : Bytes) : Prop := label ≠ [] ∧ Printable label

instance (label : Bytes) : Decidable (IsLabel label) :=
  inferInstanceAs (Decidable (label ≠ [] ∧ Printable label))

theorem IsLabel.append {label more : Bytes} (h : IsLabel label) (hmore : Printable more) :
    IsLabel (label ++ more) :=
  ⟨List.append_ne_nil_of_left_ne_nil h.1 _, h.2.append hmore⟩

/-- Fields without ports and with a label. -/
theorem ParsedL4Fields.wellFormed_label {srcIp dstIp label : Bytes} (hsrc : Printable srcIp)
    (hdst : Printable dstIp) (hlabel : IsLabel label) :
    ParsedL4Fields.WellFormed { srcIp, dstIp, l4Protocol := label } := by
  have hport : 0 ≤ (0 : Int32).toInt ∧ (0 : Int32).toInt < 2 ^ 16 := by decide
  exact ⟨hlabel.1, ⟨hsrc, hdst, hlabel.2⟩, hport, hport⟩

/-- Fields with a label only. -/
theorem ParsedL4Fields.wellFormed_labelOnly {label : Bytes} (hlabel : IsLabel label) :
    ParsedL4Fields.WellFormed { l4Protocol := label } :=
  wellFormed_label (List.forall_mem_nil _) (List.forall_mem_nil _) hlabel

section WellFormed

variable (access : PacketAccess Id)

theorem printable_formatIPv4 (src : ℕ) : Printable (Id.run (formatIPv4 access src)) := by
  simp only [formatIPv4, Id.run_bind, Id.run_pure]
  refine Printable.intercalate (by decide) fun piece hpiece => ?_
  simp only [List.mem_cons, List.not_mem_nil, or_false] at hpiece
  rcases hpiece with rfl | rfl | rfl | rfl <;> exact printable_decimal _

theorem printable_formatIPv6 (src : ℕ) : Printable (Id.run (formatIPv6 access src)) := by
  simp only [formatIPv6, Id.run_bind, Id.run_pure]
  refine Printable.intercalate (by decide) fun piece hpiece => ?_
  obtain ⟨group, -, rfl⟩ := List.mem_map.mp hpiece
  exact printable_hexadecimal _

theorem parseTransport_wellFormed {label : Bytes} (hlabel : IsLabel label) (protocol : UInt8)
    (cursor remaining : ℕ) {srcIp dstIp : Bytes} (hsrc : Printable srcIp)
    (hdst : Printable dstIp) :
    (Id.run (parseTransport access label protocol cursor remaining
      { srcIp, dstIp })).WellFormed := by
  have htcp : IsLabel (ascii "TCP") := by decide
  have hudp : IsLabel (ascii "UDP") := by decide
  simp only [parseTransport, apply_ite Id.run, Id.run_bind, Id.run_pure]
  split
  · split
    · exact ⟨htcp.1, ⟨hsrc, hdst, htcp.2⟩, int32_ofNat_toInt _, int32_ofNat_toInt _⟩
    · exact ParsedL4Fields.wellFormed_label hsrc hdst (by decide)
  · split
    · exact ⟨hudp.1, ⟨hsrc, hdst, hudp.2⟩, int32_ofNat_toInt _, int32_ofNat_toInt _⟩
    · exact ParsedL4Fields.wellFormed_label hsrc hdst (hlabel.append (printable_decimal _))

theorem parseIPv4_wellFormed (cursor remaining : ℕ) :
    (Id.run (parseIPv4 access cursor remaining)).WellFormed := by
  simp only [parseIPv4, apply_ite Id.run, Id.run_bind, Id.run_pure]
  split
  · exact ParsedL4Fields.wellFormed_labelOnly (by decide)
  · split
    · exact ParsedL4Fields.wellFormed_labelOnly (by decide)
    · exact parseTransport_wellFormed access (by decide) _ _ _ (printable_formatIPv4 access _)
        (printable_formatIPv4 access _)

theorem parseIPv6_wellFormed (cursor remaining : ℕ) :
    (Id.run (parseIPv6 access cursor remaining)).WellFormed := by
  simp only [parseIPv6, apply_ite Id.run, Id.run_bind, Id.run_pure]
  split
  · exact ParsedL4Fields.wellFormed_labelOnly (by decide)
  · exact parseTransport_wellFormed access (by decide) _ _ _ (printable_formatIPv6 access _)
      (printable_formatIPv6 access _)

/-- The dispatch on an EtherType that the Linux cooked and the Ethernet branch end with. -/
theorem etherType_wellFormed {label : Bytes} (hlabel : IsLabel label) (etherType : UInt16)
    (cursor remaining : ℕ) :
    (if etherType = 0x0800 then Id.run (parseIPv4 access cursor remaining)
      else if etherType = 0x86DD then Id.run (parseIPv6 access cursor remaining)
        else { l4Protocol := label }).WellFormed := by
  split
  · exact parseIPv4_wellFormed access _ _
  · split
    · exact parseIPv6_wellFormed access _ _
    · exact ParsedL4Fields.wellFormed_labelOnly hlabel

/-- Whatever the link type and the bytes are, the fields are well formed. -/
theorem parseL4Fields_wellFormed (dataLink : UInt16) (isNull : Bool) (capturedLength : ℕ) :
    (Id.run (parseL4Fields access dataLink isNull capturedLength)).WellFormed := by
  have hsll (n : ℕ) : IsLabel (ascii "SLL_0x" ++ paddedHexadecimal 4 n) :=
    IsLabel.append (by decide) (printable_paddedHexadecimal 4 n)
  have heth (n : ℕ) : IsLabel (ascii "ETH_0x" ++ paddedHexadecimal 4 n) :=
    IsLabel.append (by decide) (printable_paddedHexadecimal 4 n)
  have hlink (n : ℕ) : IsLabel (ascii "LINK_" ++ decimal n) :=
    IsLabel.append (by decide) (printable_decimal n)
  simp only [parseL4Fields, apply_ite Id.run, Id.run_bind, Id.run_pure]
  split
  · exact ParsedL4Fields.wellFormed_labelOnly (by decide)
  · split
    · split
      · exact parseIPv4_wellFormed access _ _
      · split
        · exact parseIPv6_wellFormed access _ _
        · exact ParsedL4Fields.wellFormed_labelOnly (by decide)
    · split
      · split
        · exact ParsedL4Fields.wellFormed_labelOnly (by decide)
        · exact etherType_wellFormed access (hsll _) _ _ _
      · split
        · exact ParsedL4Fields.wellFormed_labelOnly (hlink _)
        · split
          · exact etherType_wellFormed access (heth _) _ _ _
          · exact etherType_wellFormed access (heth _) _ _ _

end WellFormed

end PqcapReader
