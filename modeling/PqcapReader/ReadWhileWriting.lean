import PqcapReader.ConcurrentReaders

/-!
# Reading while the index is written

`EmbedPqcapIndex` rewrites its capture in place, and nothing keeps queries away meanwhile. Each
of its steps leaves the capture, truncates it, or continues the bundle by a piece; so queries
in any number, on the same file and between any two steps, never return anything but the rows
of the index that is being written, unless a shorter part of the bundle ends with a footer.
-/

namespace PqcapReader

open ByteCodec Effects Simulation Threads Threads.Program

section Writer

variable (faults : Schedule) (pieces : Bytes → Bytes → List ℕ) (db : Database)
  (fs : World → VirtualFileSystem) (light : LightPcapNg)

/-- `EmbedPqcapIndex` up to the rewriting: the bundle, and the count. -/
def preparingSteps (pathIn : Bytes) (address : ℕ) : Steps (Bytes × Int64) := do
  let path := db.expandPath pathIn
  atomic (ensurePlainCaptureAt faults fs path)
  let rows ← atomic (fetchPacketFeaturesFromCapture faults db light path)
  let locations ← scanSteps faults path
  if rows.length ≠ locations.length then
    stop (.ioException
      (ascii "pqcap_embed_index: packet count mismatch (features=" ++ decimal rows.length ++
        ascii " blocks=" ++ decimal locations.length ++ ascii ") in " ++ path))
  else
    writeMetadataSteps faults db (tempParquetPath path) rows locations (defaultLinktype rows) address
    let capture ← readFileSteps faults path
    let parquet ← readFileSteps faults (tempParquetPath path)
    pure (pqcapBundle capture parquet, Int64.ofNat rows.length)

theorem embedIndexSteps_eq (pathIn : Bytes) (address : ℕ) :
    embedIndexSteps faults pieces db fs light pathIn address =
      preparingSteps faults db fs light pathIn address >>= fun prepared =>
        rewriting faults pieces (db.expandPath pathIn) prepared.2 prepared.1 := by
  rw [embedIndexSteps, preparingSteps]
  simp only [bind_assoc]
  refine congrArg _ (funext fun _ => congrArg _ (funext fun rows => congrArg _
    (funext fun locations => ?_)))
  split
  · rfl
  · simp only [writeIndexSteps, embedParquetSteps, rewriting, removing, bind_assoc, pure_bind]

end Writer

section Spared

variable {faults : Schedule} (hfaults : NoFaults faults)

/-- A call that changes no file. -/
theorem spares_of_files {A : Type} {effect : Action A}
    (h : ∀ world, (exec effect world).2.files = world.files) (spared : Set Bytes) :
    Spares World.files spared (atomic effect) :=
  Spares.atomic fun world path _ => congrFun (h world) path

include hfaults

theorem ensurePlainCaptureAt_spares (fs : World → VirtualFileSystem) (path : Bytes)
    (spared : Set Bytes) :
    Spares World.files spared (atomic (ensurePlainCaptureAt faults fs path)) :=
  spares_of_files (fun world => by
    rw [ensurePlainCaptureAt, exec_bind, exec_tick hfaults]
    rfl) spared

omit hfaults in
theorem fetchPacketFeatures_spares (db : Database) (light : LightPcapNg) (path : Bytes)
    (spared : Set Bytes) :
    Spares World.files spared (atomic (fetchPacketFeaturesFromCapture faults db light path)) :=
  spares_of_files (fun world => by
    obtain ⟨result, clock, hexec, -⟩ := exec_fetchPacketFeatures faults db light path world
    rw [hexec]) spared

theorem readWholeSteps_spares (path : Bytes) (missing failure : Exception) (spared : Set Bytes) :
    Spares World.files spared (readWholeSteps faults path missing failure) := by
  refine (spares_of_files (fun world => ?_) spared).bind fun opened => ?_
  · rw [openReadStep, exec_bind, exec_tick hfaults]
    rfl
  · split
    · refine (spares_of_files (fun world => rfl) spared).bind fun size =>
        spares_of_files (fun world => ?_) spared
      rw [readStep, exec_ite]
      split
      · rfl
      · rw [exec_bind, exec_tick hfaults]
        simp only [exec_bind, exec_get, exec_ite]
        split
        · rfl
        · rfl
    · exact Spares.stop missing

/-- Up to the rewriting a call leaves its capture as it is. -/
theorem preparingSteps_spares {db : Database} (hdb : db.WritesParquet)
    (fs : World → VirtualFileSystem) (light : LightPcapNg) (pathIn : Bytes) (address : ℕ) :
    Spares World.files {db.expandPath pathIn}
      (preparingSteps faults db fs light pathIn address) := by
  have htemp : Disjoint {tempParquetPath (db.expandPath pathIn)} {db.expandPath pathIn} :=
    Set.disjoint_singleton.mpr (tempParquetPath_ne _)
  rw [preparingSteps]
  refine (ensurePlainCaptureAt_spares hfaults fs _ _).bind fun _ =>
    (fetchPacketFeatures_spares db light _ _).bind fun rows =>
      ((readWholeSteps_spares hfaults _ _ _ _).bind fun _ => Spares.pure _).bind
        fun locations => ?_
  split
  · exact Spares.stop _
  · exact ((writeMetadataSteps_within hfaults (Set.mem_singleton _) hdb _ _ _ _).spares htemp).bind
      fun _ => (readWholeSteps_spares hfaults _ _ _ _).bind fun _ =>
        (readWholeSteps_spares hfaults _ _ _ _).bind fun _ => Spares.pure _

/-- Up to the rewriting a call stays with the capture and its temporary file. -/
theorem preparingSteps_within {db : Database} (hdb : db.WritesParquet)
    {fs : World → VirtualFileSystem} {pathIn : Bytes} (hfs : OpensByFile fs (db.expandPath pathIn))
    (light : LightPcapNg) (address : ℕ) :
    Within World.files (captureFiles (db.expandPath pathIn))
      (preparingSteps faults db fs light pathIn address) := by
  have hpath : db.expandPath pathIn ∈ captureFiles (db.expandPath pathIn) := .inl rfl
  have htemp : tempParquetPath (db.expandPath pathIn) ∈ captureFiles (db.expandPath pathIn) :=
    .inr rfl
  rw [preparingSteps]
  refine (ensurePlainCaptureAt_local hfaults hpath hfs).within.bind fun _ =>
    (fetchPacketFeatures_local hfaults hpath db light).within.bind fun rows =>
      (scanSteps_within hfaults hpath).bind fun locations => ?_
  split
  · exact Within.stop _
  · exact (writeMetadataSteps_within hfaults htemp hdb _ _ _ _).bind fun _ =>
      (readWholeSteps_within hfaults hpath _ _).bind fun _ =>
        (readWholeSteps_within hfaults htemp _ _).bind fun _ => Within.pure _

/-- Alone, a call on a capture that it indexes prepares the bundle. -/
theorem exec_preparingSteps {db : Database} (hdb : db.WritesParquet)
    {fs : World → VirtualFileSystem} (hfs : ServesFiles fs) {light : LightPcapNg}
    {pathIn content : Bytes} (hfile : FitsFile content) {world : World}
    (hcontent : world.files (db.expandPath pathIn) = some content) {rows : List PacketRowData}
    (hrows : Indexable db light (db.expandPath pathIn) content world.files rows) (address : ℕ) :
    ∃ parquet next, parquet ≠ [] ∧ next.files (db.expandPath pathIn) = some content ∧
      exec (preparingSteps faults db fs light pathIn address).perform world =
        (.ok (pqcapBundle content parquet, Int64.ofNat rows.length), next) := by
  have hne := tempParquetPath_ne (db.expandPath pathIn)
  obtain ⟨first, second, third, hensured, hfetched, hscanned⟩ :=
    hrows.exec_checks hfaults hfs hfile hcontent
  obtain ⟨parquet, clock, hparquet, -, hwritten⟩ := exec_writeMetadata hfaults hdb
    (tempParquetPath (db.expandPath pathIn)) hrows.count hrows.accepts address ⟨world.files, third⟩
  have hkept : Function.update world.files (tempParquetPath (db.expandPath pathIn)) (some parquet)
      (db.expandPath pathIn) = some content := by
    rw [Function.update_of_ne hne.symm, hcontent]
  obtain ⟨fourth, hcapture⟩ := exec_readFileBytes hfaults (show (⟨Function.update world.files
    (tempParquetPath (db.expandPath pathIn)) (some parquet), clock⟩ : World).files
      (db.expandPath pathIn) = some content from hkept)
  obtain ⟨fifth, htemp⟩ := exec_readFileBytes hfaults (show (⟨Function.update world.files
    (tempParquetPath (db.expandPath pathIn)) (some parquet), fourth⟩ : World).files
      (tempParquetPath (db.expandPath pathIn)) = some parquet from Function.update_self _ _ _)
  have hreaches : Reaches (preparingSteps faults db fs light pathIn address) world
      (.done (.ok (pqcapBundle content parquet, Int64.ofNat rows.length)))
      ⟨Function.update world.files (tempParquetPath (db.expandPath pathIn)) (some parquet),
        fifth⟩ := by
    rw [preparingSteps]
    refine ((Performs.atomic _).reaches hensured _).trans ?_
    refine ((Performs.atomic _).reaches hfetched _).trans ?_
    refine ((scanSteps_performs faults _).reaches hscanned _).trans ?_
    rw [if_neg (not_not.mpr hrows.count)]
    refine ((writeMetadataSteps_performs faults db _ _ _ _ address).reaches hwritten _).trans ?_
    refine ((readFileSteps_performs faults _).reaches hcapture _).trans ?_
    exact (readFileSteps_performs faults _).reaches htemp _
  exact ⟨parquet, _, hparquet, hkept, hreaches.exec_eq⟩

end Spared

section Rewritten

variable {faults : Schedule} (hfaults : NoFaults faults) {path : Bytes}

/-- Others that leave the files of a call alone leave what holds of its capture. -/
theorem capture_stable (holds : Option Bytes → Prop) :
    Stable (AgreeOn World.files (captureFiles path)) fun world => holds (world.files path) := by
  intro before after hbefore hagree
  rwa [← hagree path (.inl rfl)]

theorem content_stable (content : Option Bytes) :
    Stable (AgreeOn World.files (captureFiles path)) fun world => world.files path = content :=
  capture_stable (· = content)

theorem handedOver_stable (bundle : Bytes) (left : ℕ × Bytes) :
    Stable (AgreeOn World.files (captureFiles path)) (HandedOver path bundle left) :=
  capture_stable fun found =>
    ∃ stored, found = some stored ∧ stored.length = left.1 ∧ stored ++ left.2 = bundle

/-- A piece continues the bundle. -/
theorem HandedOver.rewrites {bundle buffer : Bytes} {offset : ℕ} {world : World}
    (h : HandedOver path bundle (offset, buffer) world) (size clock : ℕ) :
    Rewrites path bundle world
      ((⟨world.files, clock⟩ : World).patch path offset (buffer.take size)) := by
  obtain ⟨stored, hfile, hlength, hbytes⟩ := h
  rw [World.patch_end (show (⟨world.files, clock⟩ : World).files path = some stored from hfile)
    hlength]
  by_cases hwhole : world.files path = some bundle
  · -- Nothing is left in the buffer.
    obtain rfl : stored = bundle := Option.some.inj (hfile.symm.trans hwhole)
    obtain rfl : buffer = [] := List.append_right_eq_self.mp hbytes
    refine .inl ?_
    rw [List.take_nil, List.append_nil, hfile]
    exact Function.update_self _ _ _
  · refine .inr ⟨hwhole, (stored ++ buffer.take size).length, ?_⟩
    have htake : bundle.take (stored ++ buffer.take size).length = stored ++ buffer.take size := by
      conv_lhs => rw [← hbytes, ← List.take_append_drop size buffer, ← List.append_assoc]
      rw [List.take_append_drop, List.take_left]
    rw [htake]
    exact Function.update_self _ _ _

/-- The stream hands over its pieces, each behind the one before. -/
theorem flushSteps_ensures (bundle : Bytes) (sizes : List ℕ) (offset : ℕ) (buffer : Bytes) :
    Ensures (AgreeOn World.files (captureFiles path)) (Rewrites path bundle)
      (HandedOver path bundle (offset, buffer)) (flushSteps path offset buffer sizes)
      fun result world => ∃ left, result = .ok left ∧ HandedOver path bundle left world := by
  induction sizes generalizing offset buffer with
  | nil =>
    exact .done (.ex fun left => (Stable.const _).and (handedOver_stable bundle left))
      fun _ hworld => ⟨_, rfl, hworld⟩
  | cons size sizes ih =>
    have hpiece : Ensures (AgreeOn World.files (captureFiles path)) (Rewrites path bundle)
        (HandedOver path bundle (offset, buffer))
        (atomic (writeStep path offset (buffer.take size))) fun result world => result = .ok () ∧
          HandedOver path bundle (offset + (buffer.take size).length, buffer.drop size) world :=
      .atomic (handedOver_stable bundle _)
        (fun _ => (Stable.const _).and (handedOver_stable bundle _)) fun world hworld =>
          ⟨hworld.rewrites size world.clock, rfl, hworld.piece size⟩
    exact hpiece.bind_ok (ih _ _)

include hfaults

/-- Opening for writing truncates the capture. -/
theorem openWriteStep_ensures {capture bundle : Bytes} (hcapture : capture ≠ bundle) :
    Ensures (AgreeOn World.files (captureFiles path)) (Rewrites path bundle)
      (fun world => world.files path = some capture) (atomic (openWriteStep faults path))
      fun result world => result = .ok () ∧ world.files path = some [] := by
  refine .atomic (content_stable _) (fun _ => (Stable.const _).and (content_stable _)) ?_
  intro world hworld
  rw [exec_openWriteStep hfaults]
  refine ⟨.inr ⟨?_, 0, Function.update_self _ _ _⟩, rfl, Function.update_self _ _ _⟩
  rw [hworld]
  exact fun h => hcapture (Option.some.inj h)

/-- The bundle is taken into the stream's buffer. -/
theorem fwriteStep_ensures {bundle : Bytes} (hbundle : bundle ≠ []) (error : Exception) :
    Ensures (AgreeOn World.files (captureFiles path)) (Rewrites path bundle)
      (fun world => world.files path = some []) (atomic (fwriteStep faults path bundle error))
      fun result world => result = .ok () ∧ HandedOver path bundle (0, bundle) world := by
  refine .atomic (content_stable _) (fun _ => (Stable.const _).and (handedOver_stable bundle _)) ?_
  intro world hworld
  rw [exec_fwriteStep hfaults hbundle]
  exact ⟨.inl rfl, rfl, handedOver_truncated hworld bundle⟩

/-- Closing hands over what is left of it. -/
theorem fcloseStep_ensures (bundle : Bytes) (left : ℕ × Bytes) :
    Ensures (AgreeOn World.files (captureFiles path)) (Rewrites path bundle)
      (HandedOver path bundle left) (atomic (fcloseStep faults path bundle left))
      fun result world => result = .ok () ∧ world.files path = some bundle := by
  refine .atomic (handedOver_stable bundle left)
    (fun _ => (Stable.const _).and (content_stable _)) ?_
  intro world hworld
  have hrewrites := HandedOver.rewrites
    (show HandedOver path bundle (left.1, left.2) world from hworld) left.2.length
    (world.clock + 1)
  rw [List.take_length] at hrewrites
  obtain ⟨stored, hfile, hlength, hbytes⟩ := hworld
  rw [exec_fcloseStep hfaults]
  refine ⟨hrewrites, rfl, ?_⟩
  rw [World.patch_end (show (⟨world.files, world.clock + 1⟩ : World).files path = some stored
    from hfile) hlength, hbytes]
  exact Function.update_self _ _ _

/-- Removing the temporary file leaves the bundle. -/
theorem remove_ensures (bundle : Bytes) :
    Ensures (AgreeOn World.files (captureFiles path)) (Rewrites path bundle)
      (fun world => world.files path = some bundle) (atomic (remove faults (tempParquetPath path)))
      fun result world => result = .ok () ∧ world.files path = some bundle := by
  refine .atomic (content_stable _) (fun _ => (Stable.const _).and (content_stable _)) ?_
  intro world hworld
  have hkept : Function.update world.files (tempParquetPath path) none path = world.files path :=
    Function.update_of_ne (tempParquetPath_ne path).symm _ _
  rw [exec_remove hfaults]
  exact ⟨.inl hkept, rfl, hkept.trans hworld⟩

/-- `WriteFileBytes` truncates the capture and hands over the bundle piece by piece. -/
theorem writeFileSteps_ensures (pieces : Bytes → Bytes → List ℕ) {capture bundle : Bytes}
    (hbundle : bundle ≠ []) (hcapture : capture ≠ bundle) :
    Ensures (AgreeOn World.files (captureFiles path)) (Rewrites path bundle)
      (fun world => world.files path = some capture) (writeFileSteps faults pieces path bundle)
      fun result world => result = .ok () ∧ world.files path = some bundle := by
  refine (openWriteStep_ensures hfaults hcapture).bind_ok ((fwriteStep_ensures hfaults hbundle
    _).bind_ok ((flushSteps_ensures bundle _ _ _).bind ?_ ?_))
  · rintro left world ⟨found, hfound, hworld⟩
    obtain rfl := Except.ok.inj hfound
    exact fcloseStep_ensures hfaults bundle left world hworld
  · rintro error world ⟨left, hleft, -⟩
    cases hleft

/-- The rewriting leaves the bundle, and returns. -/
theorem rewriting_ensures (pieces : Bytes → Bytes → List ℕ) {capture bundle : Bytes}
    (hbundle : bundle ≠ []) (hcapture : capture ≠ bundle) (count : Int64) :
    Ensures (AgreeOn World.files (captureFiles path)) (Rewrites path bundle)
      (fun world => world.files path = some capture) (rewriting faults pieces path count bundle)
      fun result world => result = .ok count ∧ Written path bundle world := by
  refine (writeFileSteps_ensures hfaults pieces hbundle hcapture).bind_ok
    ((remove_ensures hfaults bundle).bind_ok ?_)
  exact .done ((Stable.const _).and (content_stable _)) fun _ hworld =>
    ⟨rfl, hworld⟩

/-- A call that succeeds alone rewrites its capture beside others that leave its files alone, and
has the result that it has alone. -/
theorem embedIndexSteps_meets (pieces : Bytes → Bytes → List ℕ) {db : Database}
    (hdb : db.WritesParquet) {fs : World → VirtualFileSystem} (hfs : ServesFiles fs) {pathIn : Bytes}
    (hopens : OpensByFile fs (db.expandPath pathIn)) {light : LightPcapNg} {content : Bytes}
    (hfile : FitsFile content) {world after : World}
    (hcontent : world.files (db.expandPath pathIn) = some content) {address : ℕ} {count : Int64}
    (halone : exec (embedPqcapIndex faults fs db light pathIn address) world = (.ok count, after)) :
    ∃ parquet, parquet ≠ [] ∧ Written (db.expandPath pathIn) (pqcapBundle content parquet) after ∧
      (embedIndexSteps faults pieces db fs light pathIn address).Meets
        (AgreeOn World.files (captureFiles (db.expandPath pathIn)))
        (Rewrites (db.expandPath pathIn) (pqcapBundle content parquet))
        (fun result later => result = .ok count ∧
          Written (db.expandPath pathIn) (pqcapBundle content parquet) later) world := by
  obtain ⟨rows, hrows, rfl⟩ := indexable_of_success hfaults hdb hfs hfile hcontent halone
  obtain ⟨parquet, next, hparquet, hkept, hprepared⟩ := exec_preparingSteps hfaults hdb hfs hfile
    hcontent hrows address
  have hprepares := (preparingSteps_within hfaults hdb hopens light address).meets
    (preparingSteps_spares hfaults hdb fs light pathIn address)
    (fun _ _ hagree => hagree) (fun before after hagree =>
      (.inl (hagree _ (Set.mem_singleton _)) :
        Rewrites (db.expandPath pathIn) (pqcapBundle content parquet) before after))
    (fun _ _ => rfl : AgreeOn World.files (captureFiles (db.expandPath pathIn)) world world)
  rw [hprepared] at hprepares
  have hlonger : content ≠ pqcapBundle content parquet := by
    intro hsame
    have hlength := pqcapBundle_length content parquet
    rw [← hsame] at hlength
    omega
  have hmeets : (embedIndexSteps faults pieces db fs light pathIn address).Meets
      (AgreeOn World.files (captureFiles (db.expandPath pathIn)))
      (Rewrites (db.expandPath pathIn) (pqcapBundle content parquet))
      (fun result later => result = .ok (Int64.ofNat rows.length) ∧
        Written (db.expandPath pathIn) (pqcapBundle content parquet) later) world := by
    rw [embedIndexSteps_eq]
    refine hprepares.bind (fun prepared later hlater => ?_) ?_
    · obtain ⟨hvalue, hagree⟩ := hlater
      obtain rfl := Except.ok.inj hvalue
      exact rewriting_ensures hfaults pieces (pqcapBundle_ne_nil content parquet) hlonger _ later
        ((hagree _ (.inl rfl)).trans hkept)
    · rintro error later ⟨herror, -⟩
      cases herror
  have hwritten := hmeets.exec.2
  rw [embedIndexSteps_performs faults pieces db fs light pathIn address world, halone] at hwritten
  exact ⟨parquet, hparquet, hwritten, hmeets⟩

end Rewritten

/-- What runs beside a call: a query on the call's capture, or anything that leaves the call's files
alone. -/
inductive Visitor (Result : Type)
  | query (reader : Client FileRequest FileReply Result)
  | elsewhere (program : Steps (Int64 ⊕ List Result))

namespace Visitor

variable {Result : Type}

/-- The visitor's program, for a call on the path. -/
def steps (fs : World → VirtualFileSystem) (path : Bytes) :
    Visitor Result → Steps (Int64 ⊕ List Result)
  | query reader => do
    let results ← readPqcapSteps fs reader path
    pure (.inr results)
  | elsewhere program => program

/-- A reader asks for sized reads only, and other programs leave the call's files alone. -/
def Behaves (path : Bytes) : Visitor Result → Prop
  | query reader => ∀ file, reader.Asks MemoryFile.answer FileRequest.Sized file
  | elsewhere program => program.Spares World.files (captureFiles path)

/-- What a finished query on the bundle may have returned. -/
def Sees (path capture parquet : Bytes) :
    Visitor Result → Except Exception (Int64 ⊕ List Result) → World → Prop
  | query reader, result, world => ∀ answer, result = .ok answer →
    answer = .inr [(reader.consult MemoryFile.answer ⟨parquet, 0⟩).1] ∧
      Written path (pqcapBundle capture parquet) world
  | elsewhere _, _, _ => True

section Meets

variable {fs : World → VirtualFileSystem} (hfs : OpensExactly fs) {path capture parquet : Bytes}
  (hparquet : parquet ≠ []) (hfits : FitsFile (pqcapBundle capture parquet))

include hfs hparquet hfits

/-- While the capture is being rewritten, a visitor sees the bundle or nothing, and leaves the files
of the call alone. -/
theorem steps_meets (hone : OneFooter (pqcapBundle capture parquet)) {visitor : Visitor Result}
    (hbehaves : visitor.Behaves path) {world : World}
    (hworld : Meantime path (pqcapBundle capture parquet) world) :
    (visitor.steps fs path).Meets (Rewrites path (pqcapBundle capture parquet))
      (fun before after => AgreeOn World.files (captureFiles path) after before)
      (visitor.Sees path capture parquet) world := by
  cases visitor with
  | query reader =>
    have hquery : Ensures (Rewrites path (pqcapBundle capture parquet)) Eq
        (Meantime path (pqcapBundle capture parquet)) ((query reader).steps fs path)
        ((query reader).Sees path capture parquet) := by
      refine (readPqcapSteps_ensures hfs hparquet hfits hone reader (hbehaves _)).bind
        (fun results => .done ?_ ?_) fun _ _ _ _ h => nomatch h
      · exact .all fun _ => .imp fun _ => (Stable.const _).and written_stable
      · intro last hlast answer hanswer
        obtain ⟨hresults, hwritten⟩ := hlast results rfl
        exact ⟨by rw [← Except.ok.inj hanswer, hresults], hwritten⟩
    exact (hquery world hworld).guarantees fun before after h _ _ => by rw [h]
  | elsewhere program =>
    exact Spares.meets hbehaves (fun _ _ h => h) (fun _ _ => trivial) world

/-- A query that begins when the bundle is there returns what it holds. -/
theorem query_meets {reader : Client FileRequest FileReply Result}
    (hasks : reader.Asks MemoryFile.answer FileRequest.Sized ⟨parquet, 0⟩) {world : World}
    (hworld : Written path (pqcapBundle capture parquet) world) :
    ((query reader).steps fs path).Meets (Rewrites path (pqcapBundle capture parquet))
      (fun before after => AgreeOn World.files (captureFiles path) after before)
      (fun result _ => result = .ok (.inr [(reader.consult MemoryFile.answer ⟨parquet, 0⟩).1]))
      world := by
  have hquery : Ensures (Rewrites path (pqcapBundle capture parquet)) Eq
      (Written path (pqcapBundle capture parquet)) ((query reader).steps fs path)
      fun result _ => result = .ok (.inr [(reader.consult MemoryFile.answer ⟨parquet, 0⟩).1]) :=
    (readPqcapSteps_written hfs hparquet hfits reader hasks).bind_ok
      (.done (.const _) fun _ _ => rfl)
  exact (hquery world hworld).guarantees fun before after h _ _ => by rw [h]

end Meets

end Visitor

/-- A call and its visitors. -/
def besideEmbedding {ι Result : Type} (faults : Schedule) (pieces : Bytes → Bytes → List ℕ)
    (db : Database) (fs : World → VirtualFileSystem) (light : LightPcapNg) (pathIn : Bytes)
    (address : ℕ) (visitors : ι → Visitor Result) : Option ι → Steps (Int64 ⊕ List Result)
  | none => do
    let count ← embedIndexSteps faults pieces db fs light pathIn address
    pure (.inl count)
  | some thread => (visitors thread).steps fs (db.expandPath pathIn)

section Beside

variable {ι Result : Type} [DecidableEq ι] {faults : Schedule} (hfaults : NoFaults faults)
  (pieces : Bytes → Bytes → List ℕ) {db : Database} (hdb : db.WritesParquet)
  {fs : World → VirtualFileSystem} (hfs : OpensExactly fs) {light : LightPcapNg} {pathIn content : Bytes}

/-- What each thread relies on. -/
def relies (path bundle : Bytes) : Option ι → World → World → Prop
  | none => AgreeOn World.files (captureFiles path)
  | some _ => Rewrites path bundle

/-- What each thread keeps its steps within. -/
def keeps (path bundle : Bytes) : Option ι → World → World → Prop
  | none => Rewrites path bundle
  | some _ => fun before after => AgreeOn World.files (captureFiles path) after before

omit [DecidableEq ι] in
/-- Each thread keeps within what the others rely on. -/
theorem relies_of_keeps {path bundle : Bytes} (mover thread : Option ι)
    (hother : mover ≠ thread) (before after : World)
    (h : keeps path bundle mover before after) :
    relies path bundle thread before after := by
  cases mover with
  | none =>
    cases thread with
    | none => exact absurd rfl hother
    | some reader => exact h
  | some visitor =>
    cases thread with
    | none => exact fun key hkey => (h key hkey).symm
    | some reader => exact .inl (h path (.inl rfl))

/-- What the result of each thread is like: the call's is the one that it has alone. -/
def sees (count : Int64) (path capture parquet : Bytes) (visitors : ι → Visitor Result) :
    Option ι → Except Exception (Int64 ⊕ List Result) → World → Prop
  | none => fun result world =>
    result = .ok (.inl count) ∧ Written path (pqcapBundle capture parquet) world
  | some thread => (visitors thread).Sees path capture parquet

include hfaults hdb hfs

omit [DecidableEq ι] in
/-- From the beginning each thread is right if the others keep to what it relies on. -/
theorem threads_meet (hopens : OpensByFile fs (db.expandPath pathIn)) (hfile : FitsFile content)
    {world after : World} (hcontent : world.files (db.expandPath pathIn) = some content)
    {address : ℕ} {count : Int64}
    (halone : exec (embedPqcapIndex faults fs db light pathIn address) world = (.ok count, after))
    (hfits : ∀ file, after.files (db.expandPath pathIn) = some file → FitsFile file ∧ OneFooter file)
    {visitors : ι → Visitor Result}
    (hvisitors : ∀ thread, (visitors thread).Behaves (db.expandPath pathIn)) :
    ∃ parquet, parquet ≠ [] ∧
      Written (db.expandPath pathIn) (pqcapBundle content parquet) after ∧
        ∀ thread, (besideEmbedding faults pieces db fs light pathIn address visitors thread).Meets
          (relies (db.expandPath pathIn) (pqcapBundle content parquet) thread)
          (keeps (db.expandPath pathIn) (pqcapBundle content parquet) thread)
          (sees count (db.expandPath pathIn) content parquet visitors thread) world := by
  obtain ⟨parquet, hparquet, hafter, hmeets⟩ := embedIndexSteps_meets hfaults pieces hdb hfs.serves
    hopens hfile hcontent halone
  obtain ⟨hbundle, hone⟩ := hfits _ hafter
  refine ⟨parquet, hparquet, hafter, fun thread => ?_⟩
  cases thread with
  | none =>
    refine hmeets.bind (fun value later hlater => ?_) ?_
    · obtain ⟨hvalue, hwritten⟩ := hlater
      obtain rfl := Except.ok.inj hvalue
      exact fun last hlast => ⟨rfl, (capture_stable
        (· = some (pqcapBundle content parquet))).later hwritten hlast⟩
    · rintro error later ⟨herror, -⟩
      cases herror
  | some visitor =>
    exact Visitor.steps_meets hfs hparquet hbundle hone (hvisitors visitor)
      (meantime_of_capture hcontent)

/-- A call that succeeds alone has the same result beside any queries on its capture and anything
that leaves its files alone. If no shorter part of the bundle ends with a footer, then in
whatever order the steps come, a query fails or returns what `read_pqcap` returns after the
call; a query that begins after the call returns it. -/
theorem queries_beside_embedding (hopens : OpensByFile fs (db.expandPath pathIn))
    (hfile : FitsFile content) {world after : World}
    (hcontent : world.files (db.expandPath pathIn) = some content) {address : ℕ} {count : Int64}
    (halone : exec (embedPqcapIndex faults fs db light pathIn address) world = (.ok count, after))
    (hfits : ∀ file, after.files (db.expandPath pathIn) = some file → FitsFile file ∧ OneFooter file)
    {visitors : ι → Visitor Result}
    (hvisitors : ∀ thread, (visitors thread).Behaves (db.expandPath pathIn))
    {middle : Option ι → Steps (Int64 ⊕ List Result)} {now : World}
    (hrun : Interleaves (besideEmbedding faults pieces db fs light pathIn address visitors) world middle
      now) :
    (∀ result, middle none = .done result → result = .ok (.inl count) ∧
        now.files (db.expandPath pathIn) = after.files (db.expandPath pathIn)) ∧
      ∀ thread reader, visitors thread = .query reader →
        (∀ answer, middle (some thread) = .done (.ok answer) → ∃ results, answer = .inr results ∧
          readPqcap (fs after) reader (db.expandPath pathIn) = .ok results) ∧
        ∀ result, middle none = .done result →
          middle (some thread) = (visitors thread).steps fs (db.expandPath pathIn) →
            ∀ last final ended, Interleaves middle now last final →
              last (some thread) = .done ended → ∃ results, ended = .ok (.inr results) ∧
                readPqcap (fs after) reader (db.expandPath pathIn) = .ok results := by
  obtain ⟨parquet, hparquet, hafter, hmeets⟩ := threads_meet hfaults pieces hdb hfs hopens hfile
    hcontent halone hfits hvisitors
  have hbundle := (hfits _ hafter).1
  have hmiddle := hrun.meets hmeets relies_of_keeps
  have hwriter (result : Except Exception (Int64 ⊕ List Result)) (hdone : middle none = .done result) :
      result = .ok (.inl count) ∧
        Written (db.expandPath pathIn) (pqcapBundle content parquet) now := by
    have hlast := hmiddle none
    rw [hdone] at hlast
    exact hlast now .refl
  -- A query that nothing interrupts is `read_pqcap`.
  have hreads (reader : Client FileRequest FileReply Result)
      (hasks : reader.Asks MemoryFile.answer FileRequest.Sized ⟨parquet, 0⟩) :
      readPqcap (fs after) reader (db.expandPath pathIn) =
        .ok [(reader.consult MemoryFile.answer ⟨parquet, 0⟩).1] := by
    have halone := (readPqcapSteps_written hfs hparquet hbundle reader hasks after hafter).exec.1
    rwa [readPqcapSteps_performs fs reader _ after] at halone
  refine ⟨fun result hdone => ⟨(hwriter result hdone).1,
    (hwriter result hdone).2.trans hafter.symm⟩, fun thread reader hquery => ?_⟩
  have hbehaves := hvisitors thread
  rw [hquery] at hbehaves
  refine ⟨fun answer hanswer => ?_, ?_⟩
  · have hlast := hmiddle (some thread)
    rw [hanswer] at hlast
    have hsees := hlast now .refl
    rw [sees, hquery] at hsees
    exact ⟨_, (hsees answer rfl).1, hreads reader (hbehaves _)⟩
  · intro result hdone hbegins last final ended hrest hended
    have hown : (middle (some thread)).Meets
        (relies (db.expandPath pathIn) (pqcapBundle content parquet) (some thread))
        (keeps (db.expandPath pathIn) (pqcapBundle content parquet) (some thread))
        (fun result _ =>
          result = .ok (.inr [(reader.consult MemoryFile.answer ⟨parquet, 0⟩).1])) now := by
      rw [hbegins, hquery]
      exact Visitor.query_meets hfs hparquet hbundle (hbehaves _) (hwriter result hdone).2
    have hlast := hrest.meets_of_thread hmiddle relies_of_keeps hown
    rw [hended] at hlast
    exact ⟨_, hlast final .refl, hreads reader (hbehaves _)⟩

end Beside

/-- A query on the capture, and a call on another file. -/
def sampleVisitors : Bool → Visitor Bytes
  | false => .query trailerReader
  | true => .elsewhere do
    let count ← embedIndexSteps (fun _ => .succeeds) samplePieces memoryDatabase localFiles blockFiles
      [0x62] 1
    pure (.inl count)

theorem sampleVisitors_behave (thread : Bool) :
    (sampleVisitors thread).Behaves (memoryDatabase.expandPath [0x61]) := by
  have hother : Disjoint (captureFiles [0x62]) (captureFiles (memoryDatabase.expandPath [0x61])) := by
    rw [Set.disjoint_left]
    rintro path (rfl | rfl) (h | h)
    all_goals exact absurd h (by decide +kernel)
  cases thread with
  | false => exact fun file => ⟨trivial, (by decide : (0 : ℤ) ≤ (4 : Int64).toInt), trivial⟩
  | true =>
    exact ((embedIndexSteps_within (fun _ => rfl) (.inl rfl) samplePieces (.inr rfl)
      memoryDatabase_writesParquet (localFiles_opensByFile _) blockFiles rfl 1).spares hother).bind
        fun _ => Spares.pure _

/-- The call on the capture of one packet comes to where it has closed its bundle. -/
theorem oneCapture_reaches_removing :
    ∃ parquet closed, parquet ≠ [] ∧
      closed.files [0x61] = some (pqcapBundle (oneCapture 1) parquet) ∧
      Reaches (embedIndexSteps (fun _ => .succeeds) samplePieces memoryDatabase localFiles blockFiles
        [0x61] 0) (worldOf [0x61] (oneCapture 1)) (removing (fun _ => .succeeds) [0x61] 1)
        closed := by
  have hfaults : NoFaults fun _ => Outcome.succeeds := fun _ => rfl
  have hne := tempParquetPath_ne [0x61]
  have hcontent : (worldOf [0x61] (oneCapture 1)).files [0x61] = some (oneCapture 1) :=
    worldOf_files [0x61] (oneCapture 1)
  obtain ⟨hfile, hplain, hpackets, hscan⟩ := oneCapture_gate 1 (.inr rfl)
  obtain ⟨parquet, first, hparquet, -, hfirst, hindexes⟩ := reaches_embedding hfaults samplePieces
    memoryDatabase_writesParquet localFiles_serves (show memoryDatabase.expandPath [0x61] = [0x61]
      from rfl) hfile hcontent (indexable_of_packets memoryDatabase_writesParquet
        memoryDatabase_casts hcontent hplain hpackets (congrArg List.length hscan.symm)
          (onePacket_accepted 1)) 0
  have hcapture : first.files [0x61] = some (oneCapture 1) := by
    rw [hfirst, Function.update_of_ne hne.symm, hcontent]
  have htemp : first.files (tempParquetPath [0x61]) = some parquet := by
    rw [hfirst, Function.update_self]
  obtain ⟨second, -, hreads⟩ := reaches_rewriting hfaults samplePieces hcapture htemp 1
  obtain ⟨third, hthird, htruncates⟩ := reaches_overwriting hfaults samplePieces [0x61]
    (pqcapBundle (oneCapture 1) parquet) second 1
  obtain ⟨closed, hclosed, hwrites⟩ := reaches_removing hfaults samplePieces
    (pqcapBundle_ne_nil (oneCapture 1) parquet)
    (show third.files [0x61] = some [] by rw [hthird, Function.update_self]) 1
  refine ⟨parquet, closed, hparquet, ?_, hindexes.trans (hreads.trans (htruncates.trans hwrites))⟩
  rw [hclosed, Function.update_self]

/-- The query runs between two steps of the call, when the bundle is there, and reads the index. -/
theorem sampleVisitors_beside :
    ∃ after middle between last final results,
      exec (embedPqcapIndex (fun _ => .succeeds) localFiles memoryDatabase blockFiles [0x61] 0)
          (worldOf [0x61] (oneCapture 1)) = (.ok 1, after) ∧
        Interleaves (besideEmbedding (fun _ => .succeeds) samplePieces memoryDatabase localFiles
          blockFiles [0x61] 0 sampleVisitors) (worldOf [0x61] (oneCapture 1)) middle between ∧
        (∀ result, middle none ≠ .done result) ∧
        middle (some false) = .done (.ok (.inr results)) ∧ Interleaves middle between last final ∧
        last none = .done (.ok (.inl 1)) ∧
        readPqcap (localFiles after) trailerReader (memoryDatabase.expandPath [0x61]) =
          .ok results := by
  have hfaults : NoFaults fun _ => Outcome.succeeds := fun _ => rfl
  obtain ⟨hfile, hplain, hpackets, hscan⟩ := oneCapture_gate 1 (.inr rfl)
  obtain ⟨-, after, -, -, halone⟩ := exec_embed_worldOf hfile hplain hpackets
    (congrArg List.length hscan.symm) (onePacket_accepted 1)
  have hfits : ∀ content ∈ (exec (embedPqcapIndex (fun _ => .succeeds) localFiles memoryDatabase
      blockFiles [0x61] 0) (worldOf [0x61] (oneCapture 1))).2.files [0x61],
        FitsFile content ∧ OneFooter content := by
    decide +kernel
  rw [halone] at hfits
  obtain ⟨parquet, closed, hparquet, hclosed, hcall⟩ := oneCapture_reaches_removing
  obtain ⟨removed, hremoved, hends⟩ := reaches_done hfaults closed 1
  have hafter : after = removed := by
    have hwhole := (hcall.trans hends).exec_eq
    rw [embedIndexSteps_performs, halone] at hwhole
    exact (Prod.mk.inj hwhole).2
  have hwritten : after.files [0x61] = some (pqcapBundle (oneCapture 1) parquet) := by
    rw [hafter, hremoved, Function.update_of_ne (tempParquetPath_ne [0x61]).symm, hclosed]
  have hquery := (Visitor.query_meets localFiles_opensExactly hparquet (hfits _ hwritten).1
    (sampleVisitors_behave false _) hclosed).exec
  -- The query runs to its end, and then the call.
  obtain ⟨middle, hasked, hread, hothers⟩ := Interleaves.exists_done (Function.update
    (besideEmbedding (fun _ => .succeeds) samplePieces memoryDatabase localFiles blockFiles [0x61] 0
      sampleVisitors) none (removing (fun _ => .succeeds) [0x61] 1 >>= fun count =>
        pure (.inl count))) closed (some false)
  obtain ⟨last, hrest, hdone, hkept⟩ := Interleaves.exists_done middle
    (exec (Function.update (besideEmbedding (fun _ => .succeeds) samplePieces memoryDatabase localFiles
      blockFiles [0x61] 0 sampleVisitors) none (removing (fun _ => .succeeds) [0x61] 1 >>=
        fun count => pure (.inl count)) (some false)).perform closed).2 none
  have hbetween := Interleaves.of_reaches none (hcall.bind _) hasked
  obtain ⟨hresults, hthreads⟩ := queries_beside_embedding hfaults samplePieces
    memoryDatabase_writesParquet localFiles_opensExactly (localFiles_opensByFile _) hfile
    (worldOf_files [0x61] (oneCapture 1)) halone hfits sampleVisitors_behave (hbetween.trans hrest)
  have hanswered := hread.trans (congrArg Program.done hquery)
  obtain ⟨results, hinr, hreads⟩ := (hthreads false trailerReader rfl).1 _
    ((hkept _ (by decide)).trans hanswered)
  rw [hinr] at hanswered
  rw [(hresults _ hdone).1] at hdone
  have hbegun := hothers none (by decide)
  rw [Function.update_self] at hbegun
  refine ⟨after, middle, _, last, _, results, halone, hbetween, fun result hnever => ?_, hanswered,
    hrest, hdone, hreads⟩
  cases hbegun.symm.trans hnever

end PqcapReader
