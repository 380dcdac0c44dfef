import PqcapReader.EmbedFaults
import Mathlib.Logic.Relation

/-!
# Calling again after a failure

A call of `EmbedPqcapIndex` that throws may leave its temporary file. The next call writes
over that file, so as long as the capture is in place the failures leave no trace: the
first call without faults leaves what it would have left at the beginning.
-/

namespace PqcapReader

open ByteCodec SqlText Effects Relation

section Call

variable {faults : Schedule} {fs : World → VirtualFileSystem} {db : Database}
  {light : LightPcapNg} {pathIn capture : Bytes} {world : World}

/-- The files after a call that returns: the bundle in the capture's place, and no temporary
file. -/
def indexedFiles (files : Bytes → Option Bytes) (path capture parquet : Bytes) :
    Bytes → Option Bytes :=
  Function.update (Function.update files path (some (pqcapBundle capture parquet)))
    (tempParquetPath path) none

theorem indexedFiles_self (files : Bytes → Option Bytes) (path parquet : Bytes) :
    indexedFiles files path capture parquet path = some (pqcapBundle capture parquet) :=
  (Function.update_of_ne (tempParquetPath_ne path).symm _ _).trans (Function.update_self _ _ _)

/-- Without faults, writing the index of a capture with as many packets as rows leaves the indexed
files. -/
theorem exec_writeIndex_files (hfaults : NoFaults faults) (hdb : db.WritesParquet)
    {path : Bytes} (hcapture : world.files path = some capture) {rows : List PacketRowData}
    (hcount : rows.length = (scanPacketLocations capture).length) {linktype : UInt16}
    (haccepts : db.Accepts (indexRows rows (scanPacketLocations capture) linktype)) (address : ℕ) :
    ∃ parquet clock, parquet ≠ [] ∧
      db.readParquet parquet = some (indexRows rows (scanPacketLocations capture) linktype) ∧
      exec (writeIndex faults db path rows (scanPacketLocations capture) linktype address) world =
        (.ok (), ⟨indexedFiles world.files path capture parquet, clock⟩) := by
  have hne := tempParquetPath_ne path
  obtain ⟨parquet, first, hsome, hread, hwrite⟩ := exec_writeMetadata hfaults hdb
    (tempParquetPath path) hcount haccepts address world
  have hplace : (⟨Function.update world.files (tempParquetPath path) (some parquet), first⟩ :
      World).files path = some capture := (Function.update_of_ne hne.symm _ _).trans hcapture
  obtain ⟨second, hembed⟩ := exec_embedParquetInPqcap hfaults hplace (Function.update_self _ _ _)
  refine ⟨parquet, second + 1, hsome, hread, ?_⟩
  rw [writeIndex, exec_bind_ok _ hwrite, exec_bind_ok _ hembed, exec_remove hfaults, indexedFiles,
    Function.update_comm hne, Function.update_idem]

/-- Without faults a call on a capture that it accepts leaves the indexed files. -/
theorem exec_embedPqcapIndex_files (hfaults : NoFaults faults) (hdb : db.WritesParquet)
    (hfs : ServesFiles fs) (hfile : FitsFile capture)
    (hcapture : world.files (db.expandPath pathIn) = some capture)
    {rows : List PacketRowData}
    (h : Indexable db light (db.expandPath pathIn) capture world.files rows) (address : ℕ) :
    ∃ parquet clock, parquet ≠ [] ∧ db.readParquet parquet =
        some (indexRows rows (scanPacketLocations capture) (defaultLinktype rows)) ∧
      exec (embedPqcapIndex faults fs db light pathIn address) world =
        (.ok (Int64.ofNat rows.length),
          ⟨indexedFiles world.files (db.expandPath pathIn) capture parquet, clock⟩) := by
  obtain ⟨first, second, third, hensured, hfetched, hscanned⟩ :=
    h.exec_checks hfaults hfs hfile hcapture
  obtain ⟨parquet, clock, hsome, hread, hwritten⟩ := exec_writeIndex_files hfaults hdb
    (show (⟨world.files, third⟩ : World).files (db.expandPath pathIn) = some capture from hcapture)
    h.count h.accepts address
  refine ⟨parquet, clock, hsome, hread, ?_⟩
  rw [embedPqcapIndex, exec_bind_ok _ hensured, exec_bind_ok _ hfetched, exec_bind_ok _ hscanned,
    exec_ite, if_neg (not_not.mpr h.count), exec_bind_ok _ hwritten, exec_pure]

end Call

section Attempts

variable (fs : World → VirtualFileSystem) (db : Database) (light : LightPcapNg)
  (pathIn capture : Bytes)

/-- A call throws, and the capture is in its place afterwards. -/
def FailsInPlace (world next : World) : Prop :=
  ∃ faults address error, exec (embedPqcapIndex faults fs db light pathIn address) world =
    (.error error, next) ∧ next.files (db.expandPath pathIn) = some capture

variable {fs db light pathIn capture}

/-- Such a call changes no file but the temporary one. -/
theorem FailsInPlace.files (hdb : db.WritesParquet) (hfs : ServesFiles fs)
    (hfile : FitsFile capture) {world next : World}
    (hcapture : world.files (db.expandPath pathIn) = some capture)
    (h : FailsInPlace fs db light pathIn capture world next) :
    ∀ other ≠ tempParquetPath (db.expandPath pathIn), next.files other = world.files other := by
  obtain ⟨faults, address, error, hexec, hplace⟩ := h
  intro other hother
  have houtcome := exec_embedPqcapIndex_outcome faults light hdb hfs hfile hcapture address
  rw [hexec] at houtcome
  cases houtcome with
  | untouched error clock => rfl
  | temporaryLeft error clock parquet hparquet stored hfaults =>
    exact Function.update_of_ne hother _ _
  | rewriteCut error clock parquet hparquet stored text hwrite =>
    by_cases hpath : other = db.expandPath pathIn
    · rw [hpath, hcapture]
      exact hplace
    · exact (Function.update_of_ne hpath _ _).trans (Function.update_of_ne hother _ _)

/-- Nor do several. -/
theorem files_of_attempts (hdb : db.WritesParquet) (hfs : ServesFiles fs) (hfile : FitsFile capture)
    {world later : World} (hcapture : world.files (db.expandPath pathIn) = some capture)
    (h : ReflTransGen (FailsInPlace fs db light pathIn capture) world later) :
    ∀ other ≠ tempParquetPath (db.expandPath pathIn), later.files other = world.files other := by
  induction h with
  | refl => exact fun _ _ => rfl
  | tail _ hfails ih =>
    have hbefore := (ih _ (tempParquetPath_ne _).symm).trans hcapture
    exact fun other hother => (hfails.files hdb hfs hfile hbefore other hother).trans (ih other hother)

end Attempts

/-- After any number of calls that threw and left the capture in its place, a call without faults
returns what it would have returned before them, and leaves the same files, with an embedded index
of the same rows. -/
theorem embed_after_failures {fs : World → VirtualFileSystem} {db : Database} {light : LightPcapNg}
    {pathIn capture : Bytes} {faults : Schedule} (hfaults : NoFaults faults)
    (hdb : db.WritesParquet) (hfs : ServesFiles fs) (hfile : FitsFile capture)
    {world later after : World} (hcapture : world.files (db.expandPath pathIn) = some capture)
    (hattempts : ReflTransGen (FailsInPlace fs db light pathIn capture) world later)
    {address : ℕ} {count : Int64}
    (hfirst : exec (embedPqcapIndex faults fs db light pathIn address) world = (.ok count, after))
    (address' : ℕ) :
    ∃ after' parquet parquet' index,
      exec (embedPqcapIndex faults fs db light pathIn address') later = (.ok count, after') ∧
        db.readParquet parquet = some index ∧ db.readParquet parquet' = some index ∧
        after.files = indexedFiles world.files (db.expandPath pathIn) capture parquet ∧
          after'.files = indexedFiles world.files (db.expandPath pathIn) capture parquet' := by
  have hsame := files_of_attempts hdb hfs hfile hcapture hattempts
  have hplace := hsame _ (tempParquetPath_ne _).symm
  obtain ⟨rows, hindexable, -⟩ := indexable_of_success hfaults hdb hfs hfile hcapture hfirst
  obtain ⟨parquet, clock, -, hread, hexec⟩ := exec_embedPqcapIndex_files hfaults hdb hfs hfile
    hcapture hindexable address
  obtain ⟨parquet', clock', -, hread', hexec'⟩ := exec_embedPqcapIndex_files hfaults hdb hfs hfile
    (hplace.trans hcapture) (hindexable.congr hplace) address'
  rw [hexec, Prod.mk.injEq, Except.ok.injEq] at hfirst
  obtain ⟨rfl, rfl⟩ := hfirst
  refine ⟨_, parquet, parquet', _, hexec', hread, hread', rfl, ?_⟩
  funext other
  change indexedFiles later.files _ _ _ other = _
  by_cases htemp : other = tempParquetPath (db.expandPath pathIn)
  · rw [htemp, indexedFiles, indexedFiles, Function.update_self, Function.update_self]
  · rw [indexedFiles, indexedFiles, Function.update_of_ne htemp, Function.update_of_ne htemp]
    by_cases hpath : other = db.expandPath pathIn
    · rw [hpath, Function.update_self, Function.update_self]
    · rw [Function.update_of_ne hpath, Function.update_of_ne hpath, hsame other htemp]

/-- The statement that writes the temporary file stores three bytes of it. -/
def cutMetadata : Schedule := fun step =>
  if step = 7 then .fails 5 (ascii "No space left on device") else .succeeds

/-- What is left of a call on the capture of one packet. -/
def cutWorld : World :=
  (exec (embedPqcapIndex cutMetadata localFiles memoryDatabase blockFiles [0x61] 0)
    (worldOf [0x61] (oneCapture 1))).2

/-- The capture is in its place behind the failure. -/
theorem cutWorld_failsInPlace : FailsInPlace localFiles memoryDatabase blockFiles [0x61]
    (oneCapture 1) (worldOf [0x61] (oneCapture 1)) cutWorld := by
  have hthrows : (exec (embedPqcapIndex cutMetadata localFiles memoryDatabase blockFiles [0x61] 0)
      (worldOf [0x61] (oneCapture 1))).1.isOk = false := by decide +kernel
  have hplace : cutWorld.files (memoryDatabase.expandPath [0x61]) = some (oneCapture 1) := by
    decide +kernel
  cases hrun : exec (embedPqcapIndex cutMetadata localFiles memoryDatabase blockFiles [0x61] 0)
    (worldOf [0x61] (oneCapture 1)) with
  | mk result after =>
    cases result with
    | ok count =>
      rw [hrun] at hthrows
      cases hthrows
    | error error =>
      refine ⟨cutMetadata, 0, error, ?_, hplace⟩
      rw [hrun, cutWorld, hrun]

/-- The next call returns, and its index is the one that the first would have left. -/
theorem embed_after_cutMetadata : ∃ after after' : World, ∃ parquet parquet' index,
    exec (embedPqcapIndex (fun _ => .succeeds) localFiles memoryDatabase blockFiles [0x61] 1)
        cutWorld = (.ok 1, after') ∧
      memoryDatabase.readParquet parquet = some index ∧
      memoryDatabase.readParquet parquet' = some index ∧
      after.files = indexedFiles (worldOf [0x61] (oneCapture 1)).files
        (memoryDatabase.expandPath [0x61]) (oneCapture 1) parquet ∧
        after'.files = indexedFiles (worldOf [0x61] (oneCapture 1)).files
          (memoryDatabase.expandPath [0x61]) (oneCapture 1) parquet' := by
  have hfile : FitsFile (oneCapture 1) := by decide +kernel
  obtain ⟨-, after, -, -, hfirst⟩ := exec_embed_worldOf hfile
    (show endsWithFooter (oneCapture 1) = false by decide +kernel)
    (show capturePackets blockFiles (memoryDatabase.expandPath [0x61]) (some (oneCapture 1)) =
      .ok [onePacket 1] by decide +kernel) (by decide +kernel) (onePacket_accepted 1)
  exact ⟨after, embed_after_failures (fun _ => rfl) memoryDatabase_writesParquet localFiles_serves
    hfile (worldOf_files [0x61] (oneCapture 1)) (.single cutWorld_failsInPlace) hfirst 1⟩

end PqcapReader
