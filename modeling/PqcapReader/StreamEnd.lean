import PqcapReader.CopyIndex

/-!
# The end of a stream of blocks

Whether a file of well-formed blocks ends with a footer is decided by its last block alone,
because every block repeats its length at its end. And a file whose last block holds a
packet loses that packet to the scan when it is cut anywhere, so the number of locations
shows the cut.
-/

namespace PqcapReader

open ByteCodec CursorWalk

section Footer

/-- The last four bytes of a block repeat its length. -/
theorem slice_block_end (front : Bytes) (block : RawBlock) :
    slice (front ++ block.encode) ((front ++ block.encode).length - 4) 4 =
      leBytes 4 (12 + block.body.length) := by
  have hsplit : front ++ block.encode = (front ++ (leBytes 4 block.blockType.toNat ++
      leBytes 4 (12 + block.body.length) ++ block.body)) ++
        (leBytes 4 (12 + block.body.length) ++ []) := by
    rw [List.append_nil, List.append_assoc, RawBlock.encode]
  have hfront : (front ++ (leBytes 4 block.blockType.toNat ++ leBytes 4 (12 + block.body.length) ++
      block.body)).length = (front ++ block.encode).length - 4 := by
    simp only [RawBlock.encode, List.length_append, leBytes_length]
    omega
  rw [← hfront, hsplit]
  exact slice_field [] rfl (leBytes_length 4 _)

/-- Behind any bytes a block is a footer exactly when its own bytes are. -/
theorem endsWithFooter_append_block (front : Bytes) (block : RawBlock) :
    endsWithFooter (front ++ block.encode) = (parseFooterLocator block.encode).isSome := by
  have hencode := block.encode_length
  have hfits := block.fits
  have hlength : (front ++ block.encode).length = front.length + block.encode.length :=
    List.length_append
  by_cases hsize : block.encode.length = 44
  · have hstart : (front ++ block.encode).length - 44 = front.length := by omega
    have htail : slice (front ++ (block.encode ++ [])) front.length 44 = block.encode :=
      slice_field [] rfl hsize
    rw [List.append_nil] at htail
    rw [endsWithFooter, hstart, htail, decide_eq_true (by omega), Bool.true_and]
  · have hother : parseFooterLocator block.encode = none := by
      rw [parseFooterLocator, if_pos]
      exact hsize
    rw [hother, endsWithFooter]
    by_cases hlong : 44 ≤ (front ++ block.encode).length
    · have hlast : slice (slice (front ++ block.encode) ((front ++ block.encode).length - 44) 44)
          40 4 = leBytes 4 (12 + block.body.length) := by
        rw [slice_slice, ← slice_block_end front block]
        congr 1
        omega
      cases hparse : parseFooterLocator
        (slice (front ++ block.encode) ((front ++ block.encode).length - 44) 44) with
      | none => rw [Option.isSome_none, Bool.and_false]
      | some loc =>
        obtain ⟨-, -, -, htail, -⟩ := (parseFooterLocator_eq_some_iff _ loc).mp hparse
        rw [hlast, leValue_leBytes_of_lt (by omega)] at htail
        omega
    · rw [decide_eq_false hlong]
      rfl

/-- A stream of blocks ends with a footer exactly when its last block is one. -/
theorem endsWithFooter_encodeBlocks (blocks : List Block) (last : Block) :
    endsWithFooter (encodeBlocks (blocks ++ [last])) =
      (parseFooterLocator last.encode).isSome := by
  have hlast : encodeBlocks [last] = last.toRaw.encode := List.append_nil _
  rw [encodeBlocks_append, hlast, endsWithFooter_append_block]
  rfl

/-- A block that holds a packet is no footer, whatever the packet's bytes. -/
theorem parseFooterLocator_packet {block : Block} (hpacket : block.packet?.isSome) :
    parseFooterLocator block.encode = none := by
  have htype : leValue (slice block.encode 0 4) ≠ 0x00000BEE := by
    have hfield : slice block.encode 0 4 = leBytes 4 block.toRaw.blockType.toNat := by
      rw [Block.encode, RawBlock.encode, List.append_assoc, List.append_assoc]
      exact slice_front _ _ (leBytes_length 4 _)
    rw [hfield]
    cases block with
    | enhanced packet =>
      change leValue (leBytes 4 (6 : UInt32).toNat) ≠ 0x00000BEE
      decide
    | simple packet =>
      change leValue (leBytes 4 (3 : UInt32).toNat) ≠ 0x00000BEE
      decide
    | other block => cases hpacket
  cases hparse : parseFooterLocator block.encode with
  | none => rfl
  | some loc =>
    obtain ⟨-, hfooter, -⟩ := (parseFooterLocator_eq_some_iff _ loc).mp hparse
    exact absurd hfooter htype

/-- A stream of blocks whose last block holds a packet has no footer. -/
theorem endsWithFooter_packet (blocks : List Block) (packet : EnhancedPacket) :
    endsWithFooter (encodeBlocks (blocks ++ [.enhanced packet])) = false := by
  rw [endsWithFooter_encodeBlocks, parseFooterLocator_packet (by rfl), Option.isSome_none]

/-- The block is the footer of an embedded file: of a version up to one, with any flags. -/
def IsFooterFor (block : Block) (loc : FooterLocator) : Prop :=
  ∃ version flags : ℕ, version ≤ 1 ∧ flags < 2 ^ 16 ∧ block.encode =
    (footerFields version flags loc.parquetOffset.toNat loc.parquetLength.toNat).flatten

/-- The last 44 bytes of a stream with a footer are its last block. -/
theorem slice_last_block (blocks : List Block) {last : Block} (hsize : last.encode.length = 44) :
    slice (encodeBlocks (blocks ++ [last])) ((encodeBlocks (blocks ++ [last])).length - 44) 44 =
      last.encode := by
  have hlast : encodeBlocks [last] = last.encode := List.append_nil _
  rw [encodeBlocks_append, hlast, List.length_append, hsize, Nat.add_sub_cancel]
  have htail : slice (encodeBlocks blocks ++ (last.encode ++ [])) (encodeBlocks blocks).length 44 =
      last.encode := slice_field [] rfl hsize
  rwa [List.append_nil] at htail

/-- On a capture of well-formed blocks its last block alone decides whether it counts as indexed,
and where its embedded file lies. No packet at the end is taken for a footer, whatever its bytes. -/
theorem indexed_by_last_block {fs : VirtualFileSystem} {path : Bytes} {handle : FileHandle}
    (blocks : List Block) (last : Block) (hopen : fs path fileFlagsRead = .ok (some handle))
    (hholds : handle.Holds (encodeBlocks (blocks ++ [last]))) :
    (ensurePlainCapture fs path = .ok () ↔ ∀ loc, ¬ IsFooterFor last loc) ∧
      (∀ location, pqcapOffsetSize fs path = .ok location ↔
        ∃ loc, IsFooterFor last loc ∧
          loc.Inside (encodeBlocks (blocks ++ [last])).length ∧ location = loc.printed) ∧
        (last.packet?.isSome → ensurePlainCapture fs path = .ok () ∧
          ∀ location, pqcapOffsetSize fs path ≠ .ok location) := by
  have hparse (loc : FooterLocator) :
      parseFooterLocator last.encode = some loc ↔ IsFooterFor last loc :=
    parseFooterLocator_eq_some_iff_fields _ loc
  have hplain : ensurePlainCapture fs path = .ok () ↔ ∀ loc, ¬ IsFooterFor last loc := by
    rw [ensurePlainCapture_eq hopen hholds, endsWithFooter_encodeBlocks]
    simp only [← hparse]
    cases parseFooterLocator last.encode with
    | none => exact ⟨fun _ _ h => (by cases h), fun _ => rfl⟩
    | some loc => exact ⟨fun h => (by cases h), fun h => absurd rfl (h loc)⟩
  have hlocated : ∀ location, pqcapOffsetSize fs path = .ok location ↔ ∃ loc, IsFooterFor last loc ∧
      loc.Inside (encodeBlocks (blocks ++ [last])).length ∧ location = loc.printed := by
    intro location
    rw [pqcapOffsetSize, hopen]
    change parsePqcapMetadataLocation handle path = _ ↔ _
    rw [parsePqcapMetadataLocation_eq_ok_iff hholds]
    constructor
    · rintro ⟨hlong, loc, htail, hinside, hprinted⟩
      have hfooter := endsWithFooter_encodeBlocks blocks last
      rw [endsWithFooter, htail, decide_eq_true hlong, Option.isSome_some, Bool.and_true] at hfooter
      obtain ⟨found, hfound⟩ := Option.isSome_iff_exists.mp hfooter.symm
      rw [slice_last_block blocks ((parseFooterLocator_eq_some_iff _ found).mp hfound).1] at htail
      exact ⟨loc, (hparse loc).mp htail, hinside, hprinted⟩
    · rintro ⟨loc, hfooter, hinside, hprinted⟩
      have hsize := ((parseFooterLocator_eq_some_iff _ loc).mp ((hparse loc).mpr hfooter)).1
      have hlast : encodeBlocks [last] = last.encode := List.append_nil _
      refine ⟨?_, loc, ?_, hinside, hprinted⟩
      · rw [encodeBlocks_append, hlast, List.length_append]
        omega
      · rw [slice_last_block blocks hsize]
        exact (hparse loc).mpr hfooter
  refine ⟨hplain, hlocated, fun hpacket => ?_⟩
  have hnone : ∀ loc, ¬ IsFooterFor last loc := by
    intro loc hfooter
    rw [← hparse, parseFooterLocator_packet hpacket] at hfooter
    cases hfooter
  refine ⟨hplain.mpr hnone, fun location hlocation => ?_⟩
  obtain ⟨loc, hfooter, -⟩ := (hlocated location).mp hlocation
  exact hnone loc hfooter

/-- A packet whose payload is a footer. -/
def disguised : Block :=
  .enhanced (enhancedPacket (onePacket 1).header (footerBlock 7 9) (by decide +kernel))

/-- It is not taken for one. -/
theorem disguised_not_indexed :
    (ensurePlainCapture (fun _ _ => .ok (some (FileHandle.ofContent
          (encodeBlocks ([] ++ [disguised]))))) (ascii "a.pcapng") = .ok () ↔
        ∀ loc, ¬ IsFooterFor disguised loc) ∧
      (∀ location, pqcapOffsetSize (fun _ _ => .ok (some (FileHandle.ofContent
            (encodeBlocks ([] ++ [disguised]))))) (ascii "a.pcapng") = .ok location ↔
        ∃ loc, IsFooterFor disguised loc ∧
          loc.Inside (encodeBlocks ([] ++ [disguised])).length ∧ location = loc.printed) ∧
        (disguised.packet?.isSome →
          ensurePlainCapture (fun _ _ => .ok (some (FileHandle.ofContent
              (encodeBlocks ([] ++ [disguised]))))) (ascii "a.pcapng") = .ok () ∧
            ∀ location, pqcapOffsetSize (fun _ _ => .ok (some (FileHandle.ofContent
              (encodeBlocks ([] ++ [disguised]))))) (ascii "a.pcapng") ≠ .ok location) := by
  have hfile : FitsFile (encodeBlocks ([] ++ [disguised])) := by decide +kernel
  exact indexed_by_last_block [] disguised rfl (FileHandle.ofContent_holds _ hfile)

end Footer

section Cut

/-- From where the walk over a cut stream stops, the walk over the whole stream meets the packet of
its last block. -/
theorem meetsPacket_of_cut {blocks : List Block} {packet : EnhancedPacket} {data more : Bytes}
    (hcut : data ++ more = encodeBlocks (blocks ++ [.enhanced packet])) (hmore : more ≠ [])
    {stop : ℕ} (hstop : StopsAt data stop) : MeetsPacket (data ++ more) stop := by
  have hlast : encodeBlocks (blocks ++ [.enhanced packet]) =
      encodeBlocks blocks ++ (Block.enhanced packet).encode ++ [] := by
    rw [encodeBlocks_append, List.append_nil]
    exact congrArg _ (List.append_nil _)
  have hstep := (Block.enhanced packet).frameStep_encode (encodeBlocks blocks) []
  rw [← hlast, ← hcut] at hstep
  obtain ⟨hframed, hlocations, -⟩ := (frameStep_eq_some_iff _ _ _ _).mp hstep
  have hpacket : PacketHeader (data ++ more) (encodeBlocks blocks).length := by
    by_contra hnone
    rw [(locationsAt_eq_nil_iff _ _).mpr hnone] at hlocations
    cases hlocations
  have hreach : Reaches (frameStep (data ++ more)) 0 (encodeBlocks blocks).length := by
    rw [hcut, encodeBlocks_append]
    exact (walks_encodeBlocks [] blocks).reaches_last.mono (frameStep_append (encodeBlocks blocks) _)
  have hinside := hstop.le_length
  have hlength := congrArg List.length (hcut.trans hlast)
  have hrest := List.length_pos_iff.mpr hmore
  simp only [List.length_append, List.length_nil] at hlength
  rcases (hstop.1.mono (frameStep_append data more)).comparable hreach with hbefore | hbehind
  · exact ⟨_, hbefore, hframed, hpacket⟩
  · cases hbehind with
    | here => exact ⟨_, .here _, hframed, hpacket⟩
    | next hnext hreached =>
      -- Behind the last block the walk over the whole stream is at its end.
      rw [hstep, Option.some.injEq, Prod.mk.injEq] at hnext
      obtain ⟨-, rfl⟩ := hnext
      have hforward := hreached.invariant
        (fun pos => (encodeBlocks blocks).length + (Block.enhanced packet).encode.length ≤ pos)
        (fun pos out next hpos hmoves => by
          obtain ⟨-, -, rfl⟩ := (frameStep_eq_some_iff _ _ _ _).mp hmoves
          omega) le_rfl
      omega

/-- A stream that ends with a packet has fewer locations when it is cut. -/
theorem scan_cut_lt {blocks : List Block} {packet : EnhancedPacket} {data more : Bytes}
    (hcut : data ++ more = encodeBlocks (blocks ++ [.enhanced packet])) (hmore : more ≠ [])
    (hfile : FitsFile (data ++ more)) :
    (scanPacketLocations data).length < (scanPacketLocations (data ++ more)).length := by
  obtain ⟨stop, hstop⟩ := exists_stopsAt data
  obtain ⟨extra, last, hrest, hscan⟩ := exists_scan_append hfile hstop
  have hextra : extra ≠ [] := fun hnil =>
    (walks_eq_nil_iff hrest).mp hnil (meetsPacket_of_cut hcut hmore hstop)
  have hpositive := List.length_pos_iff.mpr hextra
  rw [hscan, List.length_append]
  omega

end Cut

section Writer

variable {light : LightPcapNg} {cfg : PqcapCopyBindData} {rows : List PacketRowData}

/-- What the writer has after some rows is a stream of blocks; after at least one row its last block
holds a packet. -/
theorem content_ends_with_packet
    (hlight : light.WritesBlocks cfg.linktype (rows.map (writeCall cfg))) (hrows : rows ≠ []) :
    ∃ blocks packet, light.content (writeRows cfg light (light.openWrite cfg.linktype) rows) =
      encodeBlocks (blocks ++ [.enhanced packet]) := by
  obtain ⟨others, hopened⟩ := hlight.opened
  rcases List.eq_nil_or_concat' rows with hnil | ⟨init, last, rfl⟩
  · exact absurd hnil hrows
  have hstart : Aligned (light.content (light.openWrite cfg.linktype)) [] :=
    ⟨others.map Block.other, hopened, packetPayloads_others others⟩
  obtain ⟨blocks, hblocks, -⟩ := hstart.writeRows hlight fun data (hdata : data ∈ init) =>
    List.mem_map_of_mem (List.mem_append_left [last] hdata)
  obtain ⟨more, packet, -, hwritten⟩ := hlight.written (writeCall cfg last)
    (List.mem_map_of_mem (List.mem_append_right init List.mem_cons_self))
    (writeRows cfg light (light.openWrite cfg.linktype) init)
  refine ⟨blocks ++ more.map Block.other, packet, ?_⟩
  rw [List.append_assoc, encodeBlocks_append, ← hblocks]
  exact (congrArg light.content List.foldl_append).trans hwritten

end Writer

end PqcapReader
