import PqcapReader.CopyFaults
import PqcapReader.ConcurrentStatements
import PqcapReader.EmbedOnce

/-!
# Every index in a store is that of its own file

The statements of a database follow one another on one store of files, where captures also
arrive, are moved and are removed, and any step of any statement may fail. A statement with
a failing step may damage the capture it names and that capture's temporary file, and no
other. In every other file that ends with a footer, the index has one row for each packet
location of the capture before it, in order.
-/

namespace PqcapReader

open ByteCodec Effects Interleaving Relation

/-- The rows number the locations and show them, in order. -/
structure ListsLocations (index : List IndexRow) (locs : List PacketLocation) : Prop where
  frames : (index.map fun row => row.frameNumber) =
    (List.range locs.length).map fun i => UInt64.ofNat (i + 1)
  places : (index.map fun row => (⟨row.offset, row.size⟩ : PacketLocation)) = locs

/-- The index of as many rows as locations lists the locations. -/
theorem indexRows_lists {rows : List PacketRowData} {locs : List PacketLocation}
    (hlength : rows.length = locs.length) (linktype : UInt16) :
    ListsLocations (indexRows rows locs linktype) locs := by
  have hsize : (rows.zip locs).length = locs.length := by
    rw [List.length_zip, hlength, Nat.min_self]
  have hsnd : (rows.zip locs).map Prod.snd = locs := List.map_snd_zip (le_of_eq hlength.symm)
  constructor
  · rw [indexRows, map_mapIdx]
    refine List.ext_getElem ?_ fun i hi _ => ?_
    · rw [List.length_mapIdx, hsize, List.length_map, List.length_range]
    · rw [List.getElem_mapIdx, List.getElem_map, List.getElem_range, indexRow]
  · rw [indexRows, map_mapIdx]
    conv_rhs => rw [← hsnd]
    refine List.ext_getElem ?_ fun i hi _ => ?_
    · rw [List.length_mapIdx, List.length_map]
    · rw [List.getElem_mapIdx, List.getElem_map, indexRow]

/-- A file whose footer, if it has one, is that of the index of the capture before it. -/
def Indexed (db : Database) (content : Bytes) : Prop :=
  endsWithFooter content = true → ∃ capture parquet index, content = pqcapBundle capture parquet ∧
    db.readParquet parquet = some index ∧ ListsLocations index (scanPacketLocations capture)

/-- The file at a path, if there is one, is indexed. -/
def IndexedAt (db : Database) (files : Bytes → Option Bytes) (path : Bytes) : Prop :=
  ∀ content, files path = some content → Indexed db content

section Files

variable {db : Database} {files : Bytes → Option Bytes}

theorem Indexed.of_plain {content : Bytes} (hplain : endsWithFooter content = false) :
    Indexed db content := by
  intro hfooter
  rw [hplain] at hfooter
  cases hfooter

theorem IndexedAt.of_eq {files' : Bytes → Option Bytes} {path path' : Bytes}
    (h : IndexedAt db files path) (heq : files' path' = files path) : IndexedAt db files' path' :=
  fun content hcontent => h content (heq.symm.trans hcontent)

theorem IndexedAt.of_some {path content : Bytes} (h : Indexed db content)
    (heq : files path = some content) : IndexedAt db files path := by
  intro other hother
  rw [heq, Option.some.injEq] at hother
  exact hother ▸ h

theorem IndexedAt.of_none {path : Bytes} (heq : files path = none) : IndexedAt db files path := by
  intro other hother
  rw [heq] at hother
  cases hother

end Files

section Outcomes

variable {faults : Schedule} {db : Database} {index : Bytes → Prop} {path capture : Bytes}
  {files : Bytes → Option Bytes} {run : Except Exception Int64 × World}

/-- Whatever fails, a call changes the capture and its temporary file only. -/
theorem EmbedOutcome.frame (h : EmbedOutcome faults index path capture files run) {other : Bytes}
    (hother : other ∉ captureFiles path) : run.2.files other = files other := by
  have hpath : other ≠ path := fun heq => hother (.inl heq)
  have htemp : other ≠ tempParquetPath path := fun heq => hother (.inr heq)
  cases h with
  | untouched error clock => rfl
  | temporaryLeft error clock parquet hparquet stored hfaults =>
    exact Function.update_of_ne htemp _ _
  | rewriteCut error clock parquet hparquet stored text hwrite =>
    exact (Function.update_of_ne hpath _ _).trans (Function.update_of_ne htemp _ _)
  | returned count clock parquet hparquet =>
    exact (Function.update_of_ne htemp _ _).trans ((Function.update_of_ne hpath _ _).trans
      (Function.update_of_ne htemp _ _))

/-- Without faults, a call whose Parquet files list the capture's packets keeps indexed files
indexed. -/
theorem EmbedOutcome.indexed (h : EmbedOutcome faults index path capture files run)
    (hfaults : NoFaults faults) (hindex : ∀ parquet, index parquet → ∃ rows,
      db.readParquet parquet = some rows ∧ ListsLocations rows (scanPacketLocations capture))
    {other : Bytes} (hother : IndexedAt db files other) : IndexedAt db run.2.files other := by
  by_cases hframe : other ∉ captureFiles path
  · exact hother.of_eq (h.frame hframe)
  cases h with
  | untouched error clock => exact hother
  | temporaryLeft error clock parquet hparquet stored hnot => exact absurd hfaults hnot
  | rewriteCut error clock parquet hparquet stored text hwrite =>
    exact absurd hfaults (not_noFaults hwrite)
  | returned count clock parquet hparquet =>
    rw [hfaults clock, hfaults (clock + 1)]
    rcases not_not.mp hframe with rfl | rfl
    · obtain ⟨rows, hread, hlists⟩ := hindex parquet hparquet
      refine IndexedAt.of_some (fun _ => ⟨capture, parquet, rows, rfl, hread, hlists⟩) ?_
      exact (Function.update_of_ne (tempParquetPath_ne other).symm _ _).trans
        (Function.update_self _ _ _)
    · exact IndexedAt.of_none (Function.update_self _ _ _)

end Outcomes

/-- A file system's files and those that a failing step may have damaged. -/
structure Store where
  world : World
  damaged : Set Bytes

namespace Store

/-- Every file that no failing step may have damaged is indexed. -/
def Sound (db : Database) (store : Store) : Prop :=
  ∀ path, path ∉ store.damaged → IndexedAt db store.world.files path

/-- A capture is put at a path. -/
def arrive (store : Store) (path content : Bytes) : Store :=
  ⟨store.world.store path content, store.damaged \ {path}⟩

/-- A file is removed. -/
def discard (store : Store) (path : Bytes) : Store :=
  ⟨⟨Function.update store.world.files path none, store.world.clock⟩, store.damaged \ {path}⟩

/-- A file is moved, over the one at the target. -/
def move (store : Store) (source target : Bytes) : Store where
  world := ⟨Function.update (Function.update store.world.files source none) target
    (store.world.files source), store.world.clock⟩
  damaged := {path | if path = target then source ∈ store.damaged
    else path ≠ source ∧ path ∈ store.damaged}

variable {db : Database} {store : Store}

theorem Sound.arrive (h : store.Sound db) (path : Bytes) {content : Bytes}
    (hcontent : Indexed db content) : (store.arrive path content).Sound db := by
  intro other hother
  by_cases heq : other = path
  · exact IndexedAt.of_some hcontent (heq ▸ Function.update_self _ _ _)
  · refine (h other fun hdamaged => hother ⟨hdamaged, heq⟩).of_eq ?_
    exact Function.update_of_ne heq _ _

theorem Sound.discard (h : store.Sound db) (path : Bytes) : (store.discard path).Sound db := by
  intro other hother
  by_cases heq : other = path
  · exact IndexedAt.of_none (heq ▸ Function.update_self _ _ _)
  · refine (h other fun hdamaged => hother ⟨hdamaged, heq⟩).of_eq ?_
    exact Function.update_of_ne heq _ _

theorem Sound.move (h : store.Sound db) (source target : Bytes) :
    (store.move source target).Sound db := by
  intro other hother
  change ¬ (if other = target then source ∈ store.damaged
    else other ≠ source ∧ other ∈ store.damaged) at hother
  by_cases htarget : other = target
  · rw [if_pos htarget] at hother
    exact (h source hother).of_eq (htarget ▸ Function.update_self _ _ _)
  · rw [if_neg htarget, not_and] at hother
    by_cases hsource : other = source
    · refine IndexedAt.of_none ?_
      exact (Function.update_of_ne htarget _ _).trans (hsource ▸ Function.update_self _ _ _)
    · refine (h other (hother hsource)).of_eq ?_
      exact (Function.update_of_ne htarget _ _).trans (Function.update_of_ne hsource _ _)

end Store

/-- The files that a statement on some may have damaged, when a step may fail. -/
def damage (faults : Schedule) (files : Set Bytes) : Set Bytes :=
  {path | path ∈ files ∧ ¬ NoFaults faults}

/-- What happens to a store: an evaluation of `pqcap_embed_index`, a COPY in either mode, a capture
without a footer, a move, or a removal. -/
inductive StoreStep (db : Database) (light : LightPcapNg) (fs : World → VirtualFileSystem)
    (ι : Type) [DecidableEq ι] : Store → Store → Prop
  | embeds (store : Store) (faults : Schedule) (row : Option Bytes × ℕ)
      (hfits : RowFits db row store.world) :
      StoreStep db light fs ι store
        ⟨(exec (pqcapEmbedIndexRow faults fs db light row) store.world).2,
          store.damaged ∪ damage faults (rowFiles db row)⟩
  | copies (store : Store) (faults : Schedule) (cfg : PqcapCopyBindData)
      (queues : ι → List (List Row)) (trace : List (ι × List Row))
      (state : PqcapCopyGlobalState light) (outputPath : Bytes) (address : ℕ)
      (hrun : Runs (pcapngWriteSink db cfg light) queues (pcapngWriteInitializeGlobal cfg light)
        trace state)
      (hlight : light.WritesBlocks cfg.linktype (state.rows.map (writeCall cfg)))
      (hopened : endsWithFooter (light.content (light.openWrite cfg.linktype)) = false) :
      StoreStep db light fs ι store
        ⟨(exec (pcapngWriteFinalize faults db cfg light outputPath state address) store.world).2,
          (store.damaged \ {outputPath}) ∪ damage faults (captureFiles outputPath)⟩
  | arrives (store : Store) (path content : Bytes) (hplain : endsWithFooter content = false) :
      StoreStep db light fs ι store (store.arrive path content)
  | moves (store : Store) (source target : Bytes) :
      StoreStep db light fs ι store (store.move source target)
  | discards (store : Store) (path : Bytes) : StoreStep db light fs ι store (store.discard path)

section Steps

variable {db : Database} {light : LightPcapNg} {fs : World → VirtualFileSystem}

variable (light) in
/-- What an evaluation changes, and that it keeps indexed files indexed. -/
theorem exec_pqcapEmbedIndexRow_indexed (hdb : db.WritesParquet) (hfs : ServesFiles fs)
    (faults : Schedule) {row : Option Bytes × ℕ} {world : World} (hfits : RowFits db row world) :
    (∀ other ∉ rowFiles db row,
        (exec (pqcapEmbedIndexRow faults fs db light row) world).2.files other =
          world.files other) ∧
      (NoFaults faults → ∀ other, IndexedAt db world.files other →
        IndexedAt db (exec (pqcapEmbedIndexRow faults fs db light row) world).2.files other) := by
  obtain ⟨_ | pathIn, address⟩ := row
  · exact ⟨fun _ _ => rfl, fun _ _ hother => hother⟩
  change (∀ other ∉ _, (exec (embedPqcapIndex faults fs db light pathIn address) world).2.files
    other = _) ∧ (NoFaults faults → ∀ other, _ → IndexedAt db
      (exec (embedPqcapIndex faults fs db light pathIn address) world).2.files other)
  cases hfile : world.files (db.expandPath pathIn) with
  | none =>
    obtain ⟨error, clock, hexec⟩ := exec_embedPqcapIndex_missing faults fs light hfile address
    rw [hexec]
    exact ⟨fun _ _ => rfl, fun _ _ hother => hother⟩
  | some capture =>
    have houtcome := exec_embedPqcapIndex_outcome faults light hdb hfs
      (hfits pathIn rfl capture hfile) hfile address
    refine ⟨fun other hother => houtcome.frame fun hin => hother ⟨pathIn, rfl, hin⟩, ?_⟩
    refine fun hfaults other hother => houtcome.indexed hfaults ?_ hother
    rintro parquet ⟨rows, -, hcount, hread⟩
    exact ⟨_, hread, indexRows_lists hcount _⟩

/-- What the writer has after a run is no bundle. -/
theorem content_plain {ι : Type} [DecidableEq ι] {cfg : PqcapCopyBindData}
    {queues : ι → List (List Row)} {trace : List (ι × List Row)}
    {state : PqcapCopyGlobalState light}
    (hrun : Runs (pcapngWriteSink db cfg light) queues (pcapngWriteInitializeGlobal cfg light)
      trace state)
    (hlight : light.WritesBlocks cfg.linktype (state.rows.map (writeCall cfg)))
    (hopened : endsWithFooter (light.content (light.openWrite cfg.linktype)) = false) :
    endsWithFooter (light.content state.writer) = false := by
  rw [(run_rows hrun).2]
  by_cases hrows : state.rows = []
  · rw [hrows]
    exact hopened
  · obtain ⟨blocks, packet, hcontent⟩ := content_ends_with_packet hlight hrows
    rw [hcontent]
    exact endsWithFooter_packet blocks packet

/-- What the end of a COPY changes, and that it leaves its output indexed and keeps other indexed
files indexed. -/
theorem exec_pcapngWriteFinalize_indexed {ι : Type} [DecidableEq ι] {cfg : PqcapCopyBindData}
    {queues : ι → List (List Row)} {trace : List (ι × List Row)}
    {state : PqcapCopyGlobalState light} (hdb : db.WritesParquet)
    (hrun : Runs (pcapngWriteSink db cfg light) queues (pcapngWriteInitializeGlobal cfg light)
      trace state)
    (hlight : light.WritesBlocks cfg.linktype (state.rows.map (writeCall cfg)))
    (hopened : endsWithFooter (light.content (light.openWrite cfg.linktype)) = false)
    (faults : Schedule) (outputPath : Bytes) (address : ℕ) (world : World) :
    (∀ other ∉ captureFiles outputPath,
        (exec (pcapngWriteFinalize faults db cfg light outputPath state address) world).2.files
          other = world.files other) ∧
      (NoFaults faults → ∀ other, other = outputPath ∨ IndexedAt db world.files other →
        IndexedAt db (exec (pcapngWriteFinalize faults db cfg light outputPath state address)
          world).2.files other) := by
  have hframe : ∀ other ∉ captureFiles outputPath, ∀ content : Bytes,
      Function.update world.files outputPath (some content) other = world.files other :=
    fun other hother content => Function.update_of_ne (fun heq => hother (.inl heq)) _ _
  have hclosed : NoFaults faults → ∀ other, other = outputPath ∨ IndexedAt db world.files other →
      IndexedAt db (Function.update world.files outputPath
        (some ((faults world.clock).kept (light.content state.writer)))) other := by
    intro hfaults other hother
    by_cases heq : other = outputPath
    · rw [heq, hfaults world.clock]
      exact IndexedAt.of_some (.of_plain (content_plain hrun hlight hopened))
        (Function.update_self _ _ _)
    · exact (hother.resolve_left heq).of_eq (Function.update_of_ne heq _ _)
  by_cases hmode : cfg.mode = ascii "pqcap"
  · have houtcome := exec_finalize_outcome faults hdb hmode state outputPath address rfl
      (rfl : _ = exec (pcapngWriteFinalize faults db cfg light outputPath state address) world)
    refine ⟨fun other hother => (houtcome.frame hother).trans (hframe other hother _), ?_⟩
    refine fun hfaults other hother => houtcome.indexed hfaults ?_ (hclosed hfaults other hother)
    exact fun parquet hparquet => ⟨_, hparquet.2, indexRows_lists hparquet.1 _⟩
  · rw [exec_finalize_closes faults hmode state outputPath address world]
    exact ⟨fun other hother => hframe other hother _, hclosed⟩

/-- A step keeps every file indexed that no failing step may have damaged. -/
theorem StoreStep.sound {ι : Type} [DecidableEq ι] (hdb : db.WritesParquet) (hfs : ServesFiles fs)
    {store next : Store} (h : StoreStep db light fs ι store next) (hsound : store.Sound db) :
    next.Sound db := by
  cases h with
  | embeds faults row hfits =>
    obtain ⟨hframe, hindexed⟩ := exec_pqcapEmbedIndexRow_indexed light hdb hfs faults hfits
    intro path hpath
    have hbefore : IndexedAt db store.world.files path := hsound path fun h => hpath (.inl h)
    by_cases hin : path ∈ rowFiles db row
    · have hfaults : NoFaults faults := by
        by_contra hnot
        exact hpath (.inr ⟨hin, hnot⟩)
      exact hindexed hfaults path hbefore
    · exact hbefore.of_eq (hframe path hin)
  | copies faults cfg queues trace state outputPath address hrun hlight hopened =>
    obtain ⟨hframe, hindexed⟩ := exec_pcapngWriteFinalize_indexed hdb hrun hlight hopened faults
      outputPath address store.world
    intro path hpath
    have hbefore : path = outputPath ∨ IndexedAt db store.world.files path := by
      by_cases heq : path = outputPath
      · exact .inl heq
      · exact .inr (hsound path fun h => hpath (.inl ⟨h, heq⟩))
    by_cases hin : path ∈ captureFiles outputPath
    · have hfaults : NoFaults faults := by
        by_contra hnot
        exact hpath (.inr ⟨hin, hnot⟩)
      exact hindexed hfaults path hbefore
    · exact (hbefore.resolve_left fun heq => hin (.inl heq)).of_eq (hframe path hin)
  | arrives path content hplain => exact hsound.arrive path (.of_plain hplain)
  | moves source target => exact hsound.move source target
  | discards path => exact hsound.discard path

/-- Over any history every file stays indexed that no failing step may have damaged. -/
theorem sound_of_history {ι : Type} [DecidableEq ι] (hdb : db.WritesParquet) (hfs : ServesFiles fs)
    {start now : Store} (h : ReflTransGen (StoreStep db light fs ι) start now)
    (hstart : start.Sound db) : now.Sound db := by
  induction h with
  | refl => exact hstart
  | tail _ hstep ih => exact hstep.sound hdb hfs ih

end Steps

/-- A file in which `pqcap_offset_size` finds a location ends with a footer. -/
theorem endsWithFooter_of_pqcapOffsetSize {fs : World → VirtualFileSystem} (hfs : ServesFiles fs)
    {world : World} {path content location : Bytes} (hcontent : world.files path = some content)
    (hfits : FitsFile content) (hlocation : pqcapOffsetSize (fs world) path = .ok location) :
    endsWithFooter content = true := by
  obtain ⟨handle, hopen, hholds⟩ := hfs world path content hfits hcontent
  rw [pqcapOffsetSize, hopen] at hlocation
  exact endsWithFooter_of_location hholds hlocation

/-- A file with a footer in which `pqcap_offset_size` finds a location has it at the embedded file,
and has one. -/
theorem pqcapOffsetSize_bundle {fs : World → VirtualFileSystem} (hfs : ServesFiles fs)
    {world : World} {path capture parquet location : Bytes}
    (hfile : world.files path = some (pqcapBundle capture parquet))
    (hfits : FitsFile (pqcapBundle capture parquet))
    (hlocation : pqcapOffsetSize (fs world) path = .ok location) :
    location = printedLocation capture parquet := by
  obtain ⟨handle, hopen, hholds⟩ := hfs world path _ hfits hfile
  rw [pqcapOffsetSize, hopen] at hlocation
  change parsePqcapMetadataLocation handle path = _ at hlocation
  have hparquet : parquet ≠ [] := by
    rintro rfl
    obtain ⟨-, loc, hparse, hinside, -⟩ :=
      (parsePqcapMetadataLocation_eq_ok_iff hholds).mp hlocation
    rw [slice_footerBlock, parseFooterLocator_footerBlock hfits, Option.some.injEq] at hparse
    rw [← hparse] at hinside
    have hpositive : 0 < (UInt64.ofNat 0).toNat := hinside.1
    exact absurd hpositive (by decide)
  rw [parsePqcapMetadataLocation_bundle hparquet hfits hholds, Except.ok.injEq] at hlocation
  exact hlocation.symm

/-- Over any history of COPYs and calls of `pqcap_embed_index`, with any failing steps, where
captures arrive, are moved and are removed: in every file that no failing step may have damaged,
what `pqcap_offset_size` finds is the embedded index, and it lists the packet locations of the
capture before it. -/
theorem located_index_of_history {db : Database} {light : LightPcapNg}
    {fs : World → VirtualFileSystem} {ι : Type} [DecidableEq ι] (hdb : db.WritesParquet)
    (hfs : ServesFiles fs) {start now : Store} (hstart : start.Sound db)
    (h : ReflTransGen (StoreStep db light fs ι) start now) :
    ∀ path ∉ now.damaged, ∀ content location, now.world.files path = some content →
      FitsFile content → pqcapOffsetSize (fs now.world) path = .ok location →
        ∃ capture parquet index, content = pqcapBundle capture parquet ∧
          location = printedLocation capture parquet ∧ db.readParquet parquet = some index ∧
            ListsLocations index (scanPacketLocations capture) := by
  intro path hpath content location hcontent hfits hlocation
  have hfooter := endsWithFooter_of_pqcapOffsetSize hfs hcontent hfits hlocation
  obtain ⟨capture, parquet, index, rfl, hread, hlists⟩ :=
    sound_of_history hdb hfs h hstart path hpath content hcontent hfooter
  exact ⟨capture, parquet, index, rfl, pqcapOffsetSize_bundle hfs hcontent hfits hlocation, hread,
    hlists⟩

/-- An empty store. -/
def emptyStore : Store := ⟨⟨fun _ => none, 0⟩, ∅⟩

/-- The capture of one packet arrives. -/
def sampleArrival : Store := emptyStore.arrive (memoryDatabase.expandPath [0x61]) (oneCapture 1)

/-- It is indexed. -/
def sampleIndexed : Store :=
  ⟨(exec (pqcapEmbedIndexRow (fun _ => .succeeds) localFiles memoryDatabase blockFiles
      (some [0x61], 0)) sampleArrival.world).2,
    sampleArrival.damaged ∪ damage (fun _ => .succeeds) (rowFiles memoryDatabase (some [0x61], 0))⟩

/-- A COPY loses a part of its capture. -/
def sampleCut : Store :=
  ⟨(exec (pcapngWriteFinalize cutClose memoryDatabase sampleBind blockFiles (ascii "out.pqcapng")
      (sampleState 4) 0) sampleIndexed.world).2,
    (sampleIndexed.damaged \ {ascii "out.pqcapng"}) ∪
      damage cutClose (captureFiles (ascii "out.pqcapng"))⟩

/-- Only the files of the COPY may be damaged. -/
theorem not_mem_sampleCut_damaged : [0x61] ∉ sampleCut.damaged := by
  have hindexed : [0x61] ∉ sampleIndexed.damaged := by
    rintro (hempty | ⟨-, hfaults⟩)
    · exact hempty.1
    · exact hfaults fun _ => rfl
  have hcut : [0x61] ∉ captureFiles (ascii "out.pqcapng") := by
    have hfiles : [0x61] ≠ ascii "out.pqcapng" ∧
        [0x61] ≠ tempParquetPath (ascii "out.pqcapng") := by decide +kernel
    rintro (hpath | htemp)
    · exact hfiles.1 hpath
    · exact hfiles.2 htemp
  rintro (⟨hbefore, -⟩ | ⟨hfile, -⟩)
  · exact hindexed hbefore
  · exact hcut hfile

/-- The file that was indexed has its index where `pqcap_offset_size` finds it. -/
theorem located_index_sample :
    ∃ content location capture parquet index, sampleCut.world.files [0x61] = some content ∧
      pqcapOffsetSize (localFiles sampleCut.world) [0x61] = .ok location ∧
        content = pqcapBundle capture parquet ∧ location = printedLocation capture parquet ∧
          memoryDatabase.readParquet parquet = some index ∧
            ListsLocations index (scanPacketLocations capture) := by
  have hstart : emptyStore.Sound memoryDatabase := fun path _ => IndexedAt.of_none rfl
  have harrives : StoreStep memoryDatabase blockFiles localFiles Bool emptyStore sampleArrival :=
    .arrives emptyStore _ _ (by decide +kernel)
  have hembeds : StoreStep memoryDatabase blockFiles localFiles Bool sampleArrival sampleIndexed :=
    .embeds sampleArrival _ _ (by decide +kernel)
  have hcopies : StoreStep memoryDatabase blockFiles localFiles Bool sampleIndexed sampleCut :=
    .copies sampleIndexed cutClose sampleBind sampleQueues sampleTrace (sampleState 4) _ 0
      runs_sampleTrace sampleRows_written (by decide +kernel)
  have hlocated : (pqcapOffsetSize (localFiles sampleCut.world) [0x61]).isOk = true := by
    decide +kernel
  have hfits : ∀ content ∈ sampleCut.world.files [0x61], FitsFile content := by decide +kernel
  have hsome : (sampleCut.world.files [0x61]).isSome = true := by decide +kernel
  obtain ⟨content, hcontent⟩ := Option.isSome_iff_exists.mp hsome
  cases hlocation : pqcapOffsetSize (localFiles sampleCut.world) [0x61] with
  | error error =>
    rw [hlocation] at hlocated
    cases hlocated
  | ok location =>
    obtain ⟨capture, parquet, index, hbundle, hprinted, hread, hlists⟩ :=
      located_index_of_history memoryDatabase_writesParquet localFiles_serves hstart
        ((ReflTransGen.single harrives).tail hembeds |>.tail hcopies) [0x61]
        not_mem_sampleCut_damaged content location hcontent (hfits content hcontent) hlocation
    exact ⟨content, location, capture, parquet, index, hcontent, rfl, hbundle, hprinted, hread,
      hlists⟩

end PqcapReader
