import PqcapReader.FrameEncoding

/-!
# Stacked tags

An Ethernet header may carry any number of VLAN tags before the type of its payload. The
parser passes one: behind two tags or more it takes the second tag's identifier for the
type of the payload.
-/

namespace PqcapReader

open ByteCodec

def VlanTag.encode (tag : VlanTag) : Bytes := LinkHeader.tagBytes (some tag)

/-- An Ethernet frame without its tags. The type of the payload announces no tag. -/
structure EthernetFrame where
  dataLink : UInt16
  addresses : Bytes
  etherType : UInt16
  payload : Bytes
  not_raw : dataLink ≠ dltRaw
  not_sll : dataLink ≠ dltLinuxSll
  addresses_length : addresses.length = 12
  not_tag : etherType ≠ 0x8100 ∧ etherType ≠ 0x88A8

/-- What stands behind the addresses of a frame with a stack of tags. -/
def EthernetFrame.behind (frame : EthernetFrame) (tags : List VlanTag) : Bytes :=
  tags.flatMap VlanTag.encode ++ (beBytes frame.etherType ++ frame.payload)

/-- The frame with a stack of tags, the outermost first. -/
def EthernetFrame.encode (frame : EthernetFrame) (tags : List VlanTag) : Bytes :=
  frame.addresses ++ frame.behind tags

theorem VlanTag.encode_eq (tag : VlanTag) :
    tag.encode = beBytes tag.identifier ++ beBytes tag.control := rfl

section Frames

variable (frame : EthernetFrame)

/-- Under its link type a frame is an Ethernet frame. -/
theorem EthernetFrame.linkContent_eq (tags : List VlanTag) :
    linkContent frame.dataLink (frame.encode tags) =
      ethernetContent frame.dataLink (frame.encode tags) := by
  have hsome : frame.encode tags ≠ [] := by
    intro hnil
    have hlength := frame.addresses_length
    rw [(List.append_eq_nil_iff.mp hnil).1] at hlength
    cases hlength
  rw [linkContent, if_neg hsome, if_neg frame.not_raw, if_neg frame.not_sll]

theorem EthernetFrame.content_untagged :
    linkContent frame.dataLink (frame.encode []) =
      etherContent (ascii "ETH_0x") frame.etherType frame.payload := by
  rw [frame.linkContent_eq]
  exact ethernetContent_untagged frame.payload frame.addresses_length (not_or.mpr frame.not_tag)

/-- One tag is passed. -/
theorem EthernetFrame.content_tag (tag : VlanTag) :
    linkContent frame.dataLink (frame.encode [tag]) =
      etherContent (ascii "ETH_0x") frame.etherType frame.payload := by
  rw [frame.linkContent_eq, EthernetFrame.encode, EthernetFrame.behind, List.flatMap_singleton]
  exact ethernetContent_tag frame.payload frame.addresses_length tag frame.etherType

/-- Behind the first of several tags the frame is labelled with the second. -/
theorem EthernetFrame.content_tags (outer inner : VlanTag) (tags : List VlanTag) :
    linkContent frame.dataLink (frame.encode (outer :: inner :: tags)) =
      .other (ascii "ETH_0x" ++ paddedHexadecimal 4 inner.identifier.toNat) := by
  have hbehind : frame.behind (outer :: inner :: tags) = outer.encode ++
      (beBytes inner.identifier ++ (beBytes inner.control ++ frame.behind tags)) := by
    simp only [EthernetFrame.behind, List.flatMap_cons, inner.encode_eq, List.append_assoc]
  have hother : inner.identifier ≠ 0x0800 ∧ inner.identifier ≠ 0x86DD := by
    rcases inner.identifier_eq with h | h
    · rw [h]
      decide
    · rw [h]
      decide
  rw [frame.linkContent_eq, EthernetFrame.encode, hbehind,
    VlanTag.encode, ethernetContent_tag _ frame.addresses_length, etherContent,
    if_neg hother.1, if_neg hother.2]

/-- A frame whose type announces no tag is not labelled with a tag. -/
theorem EthernetFrame.untagged_label_ne (tag : VlanTag) :
    (etherContent (ascii "ETH_0x") frame.etherType frame.payload).fields.l4Protocol ≠
      ascii "ETH_0x" ++ paddedHexadecimal 4 tag.identifier.toNat := by
  unfold etherContent
  split
  · exact datagram_label_ne _ _ _
  · split
    · exact datagram_label_ne _ _ _
    · intro hlabel
      have hnumber := paddedHexadecimal_injective 4 (List.append_cancel_left hlabel)
      rw [UInt16.toNat_inj] at hnumber
      rcases tag.identifier_eq with h | h
      · exact frame.not_tag.1 (hnumber.trans h)
      · exact frame.not_tag.2 (hnumber.trans h)

/-- The tags of a frame make no difference exactly when there is at most one. -/
theorem vlanTags_transparent_iff (tags : List VlanTag)
    (hlength : (frame.encode tags).length < 2 ^ 32) :
    l4Fields frame.dataLink (frame.encode tags) = l4Fields frame.dataLink (frame.encode []) ↔
      tags.length ≤ 1 := by
  have hbare : (frame.encode []).length ≤ (frame.encode tags).length := by
    simp only [EthernetFrame.encode, EthernetFrame.behind, List.length_append,
      List.flatMap_nil, List.length_nil]
    omega
  rw [l4Fields_eq_content (by omega), l4Fields_eq_content (by omega), frame.content_untagged]
  match tags with
  | [] => exact iff_of_true (by rw [frame.content_untagged]) (Nat.zero_le 1)
  | [tag] => exact iff_of_true (by rw [frame.content_tag]) (le_refl 1)
  | outer :: inner :: tags =>
    refine iff_of_false (fun hsame => ?_) (by simp)
    rw [frame.content_tags] at hsame
    exact frame.untagged_label_ne inner (congrArg ParsedL4Fields.l4Protocol hsame).symm

end Frames

/-- UDP over IPv4. -/
def sampleFrame : EthernetFrame where
  dataLink := 1
  addresses := List.replicate 12 2
  etherType := 0x0800
  payload := (NetworkHeader.ipv4 sampleIPv4).encode 17 ++ [0, 53, 200, 1, 0, 8, 0, 0]
  not_raw := by decide
  not_sll := by decide
  addresses_length := rfl
  not_tag := by decide

/-- A customer tag inside a service tag. -/
def stackedTags : List VlanTag := [⟨true, 0x0064⟩, ⟨false, 0x0007⟩]

/-- One tag. -/
theorem vlanTags_transparent_sample :
    l4Fields sampleFrame.dataLink (sampleFrame.encode [⟨false, 0x0007⟩]) =
        l4Fields sampleFrame.dataLink (sampleFrame.encode []) ↔
      [VlanTag.mk false 0x0007].length ≤ 1 :=
  vlanTags_transparent_iff sampleFrame [⟨false, 0x0007⟩] (by decide)

/-- Two tags hide the datagram. -/
theorem stackedTags_not_transparent :
    ¬ ∀ (frame : EthernetFrame) (tags : List VlanTag), (frame.encode tags).length < 2 ^ 32 →
        l4Fields frame.dataLink (frame.encode tags) =
          l4Fields frame.dataLink (frame.encode []) := by
  intro h
  have hsame := h sampleFrame stackedTags (by decide)
  revert hsame
  decide +kernel

end PqcapReader
