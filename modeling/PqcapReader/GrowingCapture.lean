import PqcapReader.StoreHistory
import PqcapReader.BlockStream
import PqcapReader.CrossPlane

/-!
# A capture that grows behind its index

A capture tool may go on writing behind an embedded index. Its packets hide the footer, so
the file counts as plain again and can be indexed once more; the earlier index stays inside
as blocks that the scan skips. Over any history of such writes and calls of
`pqcap_embed_index` bytes are only added, no location that was ever found moves, and an
index that is found lists every packet of the file.
-/

namespace PqcapReader

open ByteCodec CursorWalk Effects Relation

section Content

variable {db : Database} {content : Bytes} {blocks : List Block}

/-- A file of well-formed blocks that has the packets of the given blocks, and whose index, if it
ends with one, lists all packets. -/
structure HoldsBlocks (db : Database) (content : Bytes) (blocks : List Block) : Prop where
  fits : FitsFile content
  stream : ∃ all, content = encodeBlocks all ∧ packetPayloads all = packetPayloads blocks
  indexed : endsWithFooter content = true → ∃ capture parquet index,
    content = pqcapBundle capture parquet ∧ db.readParquet parquet = some index ∧
      ListsLocations index (scanPacketLocations content)

/-- What the scan finds in a file it finds first in every longer file. -/
theorem scan_prefix_append {data more : Bytes} (hfile : FitsFile (data ++ more)) :
    scanPacketLocations data <+: scanPacketLocations (data ++ more) := by
  obtain ⟨stop, hstop⟩ := exists_stopsAt data
  obtain ⟨extra, -, -, hscan⟩ := exists_scan_append hfile hstop
  exact ⟨extra, hscan.symm⟩

/-- The scan locates the packets of the blocks. -/
theorem HoldsBlocks.located (h : HoldsBlocks db content blocks) :
    List.Forall₂ (LocatesPacket content) (scanPacketLocations content) (packetPayloads blocks) := by
  obtain ⟨all, rfl, hpayloads⟩ := h.stream
  have hlocated := packetLocations_locate [] all h.fits
  rw [scan_encodeBlocks all h.fits, ← hpayloads]
  exact hlocated

/-- Blocks that end with a packet are written behind the file. -/
theorem HoldsBlocks.append (h : HoldsBlocks db content blocks) (more : List Block) {last : Block}
    (hlast : last.packet?.isSome) (hfits : FitsFile (content ++ encodeBlocks (more ++ [last]))) :
    HoldsBlocks db (content ++ encodeBlocks (more ++ [last])) (blocks ++ (more ++ [last])) := by
  obtain ⟨all, rfl, hpayloads⟩ := h.stream
  have hsame : encodeBlocks all ++ encodeBlocks (more ++ [last]) =
      encodeBlocks ((all ++ more) ++ [last]) := by
    rw [← encodeBlocks_append, List.append_assoc]
  refine ⟨hfits, ⟨(all ++ more) ++ [last], hsame, ?_⟩, fun hfooter => ?_⟩
  · rw [List.append_assoc, packetPayloads_append, hpayloads, ← packetPayloads_append]
  · rw [hsame, endsWithFooter_encodeBlocks, parseFooterLocator_packet hlast] at hfooter
    cases hfooter

/-- An index of all packets is embedded. -/
theorem HoldsBlocks.embed (h : HoldsBlocks db content blocks) {parquet : Bytes}
    {index : List IndexRow} (hread : db.readParquet parquet = some index)
    (hlists : ListsLocations index (scanPacketLocations content))
    (hfits : FitsFile (pqcapBundle content parquet)) (hsmall : parquet.length ≤ 2 ^ 32 - 41) :
    HoldsBlocks db (pqcapBundle content parquet) blocks := by
  obtain ⟨all, hstream, hpayloads⟩ := h.stream
  have hencoded := (customBody_fits_iff parquet).mpr hsmall
  refine ⟨hfits, ⟨all ++ [.other (customRaw parquet hencoded),
    .other (footerRaw content.length parquet.length)], ?_, ?_⟩, fun _ => ?_⟩
  · rw [pqcapBundle_eq_encodeBlocks content parquet hfits hencoded, encodeBlocks_append, ← hstream]
  · rw [packetPayloads_append, hpayloads]
    exact List.append_nil _
  · have hend : StopsAt content content.length := by
      rw [hstream]
      exact stopsAt_encodeBlocks all
    refine ⟨content, parquet, index, rfl, hread, ?_⟩
    rw [scan_pqcapBundle_of_clean_end content parquet hfits hencoded hend]
    exact hlists

end Content

/-- A capture file in its world, and the blocks that capture tools have written to it. -/
structure Growing where
  world : World
  blocks : List Block

/-- Blocks are written behind the content of the file at a path. -/
def Growing.write (now : Growing) (path content : Bytes) (more : List Block) : Growing :=
  ⟨now.world.store path (content ++ encodeBlocks more), now.blocks ++ more⟩

/-- A capture tool writes blocks behind the file, the last one with a packet, or
`pqcap_embed_index` is called, without faults, and adds less than four gigabytes. -/
inductive GrowthStep (fs : World → VirtualFileSystem) (db : Database) (light : LightPcapNg)
    (pathIn : Bytes) : Growing → Growing → Prop
  | appends (now : Growing) (content : Bytes) (more : List Block) (last : Block)
      (hcontent : now.world.files (db.expandPath pathIn) = some content)
      (hlast : last.packet?.isSome)
      (hfits : FitsFile (content ++ encodeBlocks (more ++ [last]))) :
      GrowthStep fs db light pathIn now
        (now.write (db.expandPath pathIn) content (more ++ [last]))
  | embeds (now : Growing) (faults : Schedule) (address : ℕ) (hfaults : NoFaults faults)
      (hgrows : ∀ content ∈ now.world.files (db.expandPath pathIn),
        ∀ later ∈ (exec (embedPqcapIndex faults fs db light pathIn address) now.world).2.files
          (db.expandPath pathIn), FitsFile later ∧ later.length < content.length + 2 ^ 32) :
      GrowthStep fs db light pathIn now
        ⟨(exec (embedPqcapIndex faults fs db light pathIn address) now.world).2, now.blocks⟩

section Growth

variable {fs : World → VirtualFileSystem} {db : Database} {light : LightPcapNg} {pathIn : Bytes}
  {now next : Growing} {content : Bytes}

/-- A step keeps what the file holds, and adds bytes at its end only. -/
theorem GrowthStep.holds (hdb : db.WritesParquet) (hfs : ServesFiles fs)
    (h : GrowthStep fs db light pathIn now next)
    (hcontent : now.world.files (db.expandPath pathIn) = some content)
    (hholds : HoldsBlocks db content now.blocks) :
    ∃ later, next.world.files (db.expandPath pathIn) = some later ∧
      HoldsBlocks db later next.blocks ∧ content <+: later := by
  cases h with
  | appends other more last hother hlast hfits =>
    obtain rfl : content = other := Option.some.inj (hcontent.symm.trans hother)
    exact ⟨_, Function.update_self _ _ _, hholds.append more hlast hfits, List.prefix_append _ _⟩
  | embeds faults address hfaults hgrows =>
    have houtcome := exec_embedPqcapIndex_outcome faults light hdb hfs hholds.fits hcontent address
    generalize exec (embedPqcapIndex faults fs db light pathIn address) now.world = run
      at houtcome hgrows
    cases houtcome with
    | untouched error clock => exact ⟨content, hcontent, hholds, List.prefix_rfl⟩
    | temporaryLeft error clock parquet hparquet stored hnot => exact absurd hfaults hnot
    | rewriteCut error clock parquet hparquet stored text hwrite =>
      exact absurd hfaults (not_noFaults hwrite)
    | returned count clock parquet hparquet =>
      obtain ⟨rows, -, hcount, hread⟩ := hparquet
      rw [hfaults clock, hfaults (clock + 1)] at hgrows ⊢
      have hplace : Function.update (Function.update (Function.update now.world.files
          (tempParquetPath (db.expandPath pathIn)) (some parquet)) (db.expandPath pathIn)
            (some (pqcapBundle content parquet))) (tempParquetPath (db.expandPath pathIn)) none
              (db.expandPath pathIn) = some (pqcapBundle content parquet) :=
        (Function.update_of_ne (tempParquetPath_ne _).symm _ _).trans (Function.update_self _ _ _)
      obtain ⟨hfits, hsmall⟩ := hgrows content hcontent _ hplace
      have hlength := pqcapBundle_length content parquet
      refine ⟨_, hplace, ?_, ?_⟩
      · exact hholds.embed hread (indexRows_lists hcount _) hfits (by omega)
      · rw [pqcapBundle_eq_append]
        exact List.prefix_append _ _

/-- So does a history. -/
theorem holds_of_growth (hdb : db.WritesParquet) (hfs : ServesFiles fs)
    (h : ReflTransGen (GrowthStep fs db light pathIn) now next)
    (hcontent : now.world.files (db.expandPath pathIn) = some content)
    (hholds : HoldsBlocks db content now.blocks) :
    ∃ later, next.world.files (db.expandPath pathIn) = some later ∧
      HoldsBlocks db later next.blocks ∧ content <+: later := by
  induction h with
  | refl => exact ⟨content, hcontent, hholds, List.prefix_rfl⟩
  | tail _ hstep ih =>
    obtain ⟨middle, hmiddle, hkeeps, hprefix⟩ := ih
    obtain ⟨later, hlater, hlast, hadds⟩ := hstep.holds hdb hfs hmiddle hkeeps
    exact ⟨later, hlater, hlast, hprefix.trans hadds⟩

/-- What `pqcap_offset_size` finds depends on the content of the file only. -/
theorem pqcapOffsetSize_ok_congr (hfs : ServesFiles fs) {world world' : World} {path : Bytes}
    (hfits : FitsFile content) (hcontent : world.files path = some content)
    (hcontent' : world'.files path = some content) (location : Bytes) :
    pqcapOffsetSize (fs world) path = .ok location ↔
      pqcapOffsetSize (fs world') path = .ok location := by
  obtain ⟨handle, hopen, hholds⟩ := hfs world path content hfits hcontent
  obtain ⟨handle', hopen', hholds'⟩ := hfs world' path content hfits hcontent'
  rw [pqcapOffsetSize, pqcapOffsetSize, hopen, hopen']
  change parsePqcapMetadataLocation handle path = _ ↔ parsePqcapMetadataLocation handle' path = _
  rw [parsePqcapMetadataLocation_eq_ok_iff hholds, parsePqcapMetadataLocation_eq_ok_iff hholds']

/-- Behind packets that a capture tool has written `pqcap_offset_size` fails, on every chunk with the
path. A call of `pqcap_embed_index` that throws changes nothing about what it finds, and one that
returns makes it find the new index. -/
structure HidesIndex (fs : World → VirtualFileSystem) (db : Database) (light : LightPcapNg)
    (pathIn : Bytes) (now : Growing) (content : Bytes) : Prop where
  appended : ∀ (more : List Block) (last : Block), last.packet?.isSome →
    FitsFile (content ++ encodeBlocks (more ++ [last])) → ∀ args locations,
      some (db.expandPath pathIn) ∈ args → pqcapOffsetSizeFunction
        (fs (now.write (db.expandPath pathIn) content (more ++ [last])).world) args ≠ .ok locations
  thrown : ∀ (faults : Schedule) (address : ℕ) (error : Exception) (after : World),
    NoFaults faults →
      exec (embedPqcapIndex faults fs db light pathIn address) now.world = (.error error, after) →
        ∀ location, pqcapOffsetSize (fs after) (db.expandPath pathIn) = .ok location ↔
          pqcapOffsetSize (fs now.world) (db.expandPath pathIn) = .ok location
  returned : ∀ (faults : Schedule) (address : ℕ) (count : Int64) (after : World),
    NoFaults faults →
      exec (embedPqcapIndex faults fs db light pathIn address) now.world = (.ok count, after) →
        (∀ file ∈ after.files (db.expandPath pathIn), FitsFile file) →
          ∃ parquet, after.files (db.expandPath pathIn) = some (pqcapBundle content parquet) ∧
            pqcapOffsetSizeFunction (fs after) [some (db.expandPath pathIn)] =
              .ok [printedLocation content parquet]

/-- So it is with every file of well-formed blocks. -/
theorem HoldsBlocks.hidesIndex (hdb : db.WritesParquet) (hfs : ServesFiles fs)
    (hcontent : now.world.files (db.expandPath pathIn) = some content)
    (hholds : HoldsBlocks db content now.blocks) :
    HidesIndex fs db light pathIn now content where
  appended more last hlast hfits args locations hmem hlocations := by
    obtain ⟨all, rfl, -⟩ := hholds.stream
    obtain ⟨i, hi⟩ := List.mem_iff_getElem?.mp hmem
    obtain ⟨location, -, path, hpath, hlocation⟩ :=
      exists_getElem?_of_forall₂ (pqcapOffsetSizeFunction_eq_ok_iff.mp hlocations) hi
    obtain rfl := Option.some.inj hpath
    have hfooter := endsWithFooter_of_pqcapOffsetSize hfs (Function.update_self _ _ _) hfits hlocation
    rw [← encodeBlocks_append, ← List.append_assoc, endsWithFooter_encodeBlocks,
      parseFooterLocator_packet hlast] at hfooter
    cases hfooter
  thrown faults address error after hfaults hthrows := by
    have houtcome := exec_embedPqcapIndex_outcome faults light hdb hfs hholds.fits hcontent address
    rw [hthrows] at houtcome
    cases houtcome with
    | untouched => exact pqcapOffsetSize_ok_congr hfs hholds.fits hcontent hcontent
    | temporaryLeft _ _ _ _ _ hnot => exact absurd hfaults hnot
    | rewriteCut _ _ _ _ _ _ hwrite => exact absurd hfaults (not_noFaults hwrite)
  returned faults address count after hfaults hreturns hfits := by
    obtain ⟨rows, hindexable, -⟩ := indexable_of_success hfaults hdb hfs hholds.fits hcontent hreturns
    obtain ⟨parquet, after', hsome, -, hbundle, hexec⟩ :=
      hindexable.exec_embedPqcapIndex hfaults hdb hfs hholds.fits hcontent address
    obtain rfl : after = after' := (Prod.mk.inj (hreturns.symm.trans hexec)).2
    have hfile := hfits _ hbundle
    obtain ⟨handle, hopen, hhandle⟩ := hfs after _ _ hfile hbundle
    refine ⟨parquet, hbundle, pqcapOffsetSizeFunction_eq_ok_iff.mpr (.cons ⟨_, rfl, ?_⟩ .nil)⟩
    rw [pqcapOffsetSize, hopen]
    exact parsePqcapMetadataLocation_bundle hsome hfile hhandle _

end Growth

/-- Over any history in which a capture tool writes behind a capture and `pqcap_embed_index` is
called: bytes are only added, locations that were found before stay what they were, the scan finds
exactly the packets that the tool wrote, and where `pqcap_offset_size` finds an index, it lists all
of them. Packets written behind it hide it, until a call returns. -/
theorem growing_capture {fs : World → VirtualFileSystem} {db : Database} {light : LightPcapNg}
    {pathIn : Bytes} (hdb : db.WritesParquet) (hfs : ServesFiles fs) {start middle now : Growing}
    (hstart : start.world.files (db.expandPath pathIn) = some (encodeBlocks start.blocks))
    (hfits : FitsFile (encodeBlocks start.blocks))
    (hplain : endsWithFooter (encodeBlocks start.blocks) = false)
    (hbefore : ReflTransGen (GrowthStep fs db light pathIn) start middle)
    (hafter : ReflTransGen (GrowthStep fs db light pathIn) middle now) :
    ∃ content later, middle.world.files (db.expandPath pathIn) = some content ∧
      now.world.files (db.expandPath pathIn) = some later ∧ content <+: later ∧
      scanPacketLocations content <+: scanPacketLocations later ∧
      List.Forall₂ (LocatesPacket later) (scanPacketLocations later) (packetPayloads now.blocks) ∧
      (∀ location, pqcapOffsetSize (fs now.world) (db.expandPath pathIn) = .ok location →
        ∃ capture parquet index, later = pqcapBundle capture parquet ∧
          location = printedLocation capture parquet ∧ db.readParquet parquet = some index ∧
            ListsLocations index (scanPacketLocations later)) ∧
      HidesIndex fs db light pathIn now later := by
  have hholds : HoldsBlocks db (encodeBlocks start.blocks) start.blocks := by
    refine ⟨hfits, ⟨_, rfl, rfl⟩, fun hfooter => ?_⟩
    rw [hplain] at hfooter
    cases hfooter
  obtain ⟨content, hcontent, hkeeps, -⟩ := holds_of_growth hdb hfs hbefore hstart hholds
  obtain ⟨later, hlater, hlast, hprefix⟩ := holds_of_growth hdb hfs hafter hcontent hkeeps
  refine ⟨content, later, hcontent, hlater, hprefix, ?_, hlast.located, fun location hlocation => ?_,
    hlast.hidesIndex hdb hfs hlater⟩
  · obtain ⟨more, rfl⟩ := hprefix
    exact scan_prefix_append hlast.fits
  · have hfooter := endsWithFooter_of_pqcapOffsetSize hfs hlater hlast.fits hlocation
    obtain ⟨capture, parquet, index, rfl, hread, hlists⟩ := hlast.indexed hfooter
    exact ⟨capture, parquet, index, rfl, pqcapOffsetSize_bundle hfs hlater hlast.fits hlocation,
      hread, hlists⟩

/-- The capture of one packet. -/
def grownStart : Growing := ⟨worldOf [0x61] (encodeBlocks oneBlocks), oneBlocks⟩

/-- It is indexed. -/
def grownIndexed : Growing :=
  ⟨(exec (embedPqcapIndex (fun _ => .succeeds) localFiles memoryDatabase blockFiles [0x61] 0)
    grownStart.world).2, grownStart.blocks⟩

/-- A packet that a tool writes. -/
def writtenPacket : Block := .enhanced (enhancedPacket (onePacket 1).header (ascii "next") (by decide))

/-- The packet is written behind the index. -/
def grownAgain : Growing :=
  grownIndexed.write (memoryDatabase.expandPath [0x61])
    ((grownIndexed.world.files (memoryDatabase.expandPath [0x61])).getD []) ([] ++ [writtenPacket])

/-- And the capture is indexed again. -/
def grownTwice : Growing :=
  ⟨(exec (embedPqcapIndex (fun _ => .succeeds) localFiles memoryDatabase blockFiles [0x61] 0)
    grownAgain.world).2, grownAgain.blocks⟩

theorem grownIndexed_step :
    GrowthStep localFiles memoryDatabase blockFiles [0x61] grownStart grownIndexed :=
  .embeds grownStart _ 0 (fun _ => rfl) (by decide +kernel)

theorem grownTwice_step :
    GrowthStep localFiles memoryDatabase blockFiles [0x61] grownAgain grownTwice :=
  .embeds grownAgain _ 0 (fun _ => rfl) (by decide +kernel)

theorem grownAgain_step :
    GrowthStep localFiles memoryDatabase blockFiles [0x61] grownIndexed grownAgain := by
  have hsome : (grownIndexed.world.files (memoryDatabase.expandPath [0x61])).isSome = true := by
    decide +kernel
  have hfits : ∀ content ∈ grownIndexed.world.files (memoryDatabase.expandPath [0x61]),
      FitsFile (content ++ encodeBlocks ([] ++ [writtenPacket])) := by decide +kernel
  obtain ⟨content, hcontent⟩ := Option.isSome_iff_exists.mp hsome
  rw [grownAgain, hcontent, Option.getD_some]
  exact .appends grownIndexed content [] writtenPacket hcontent rfl (hfits content hcontent)

example : packetPayloads grownTwice.blocks = [ascii "abc", ascii "next"] := by decide +kernel

example : (pqcapOffsetSize (localFiles grownTwice.world) [0x61]).isOk = true := by decide +kernel

/-- In the end both packets are found, and the index lists both. -/
theorem growing_capture_sample :
    ∃ content later,
      grownIndexed.world.files (memoryDatabase.expandPath [0x61]) = some content ∧
      grownTwice.world.files (memoryDatabase.expandPath [0x61]) = some later ∧ content <+: later ∧
      scanPacketLocations content <+: scanPacketLocations later ∧
      List.Forall₂ (LocatesPacket later) (scanPacketLocations later)
        (packetPayloads grownTwice.blocks) ∧
      (∀ location, pqcapOffsetSize (localFiles grownTwice.world) (memoryDatabase.expandPath [0x61]) =
          .ok location →
        ∃ capture parquet index, later = pqcapBundle capture parquet ∧
          location = printedLocation capture parquet ∧
            memoryDatabase.readParquet parquet = some index ∧
              ListsLocations index (scanPacketLocations later)) ∧
      HidesIndex localFiles memoryDatabase blockFiles [0x61] grownTwice later :=
  growing_capture memoryDatabase_writesParquet localFiles_serves
    (worldOf_files [0x61] (encodeBlocks oneBlocks)) (by decide +kernel) (by decide +kernel)
    (.single grownIndexed_step) ((ReflTransGen.single grownAgain_step).tail grownTwice_step)

end PqcapReader
