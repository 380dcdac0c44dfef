import PqcapReader.ConcurrentStatements
import PqcapReader.EmbedFaults

/-!
# Two calls on one capture

`EmbedPqcapIndex` looks for a footer before it begins and truncates the capture before it
writes. A second call that has passed the check, and that reads the capture while the
first has it truncated, embeds its index in an empty file. Both calls return the number
of packets, and the packets are gone.
-/

namespace PqcapReader

open ByteCodec Effects Threads Threads.Program

section Calls

variable (faults : Schedule) (pieces : Bytes → Bytes → List ℕ) (path : Bytes) (count : Int64)

/-- A call that has written its bundle. -/
def removing : Steps Int64 := do
  atomic (remove faults (tempParquetPath path))
  pure count

/-- A call that has written its metadata. -/
def embedding : Steps Int64 := do
  embedParquetSteps faults pieces path (tempParquetPath path)
  removing faults path count

/-- A call that has read the capture and the metadata. -/
def rewriting (bytes : Bytes) : Steps Int64 := do
  writeFileSteps faults pieces path bytes
  removing faults path count

/-- A call that has truncated the capture. -/
def overwriting (bytes : Bytes) : Steps Int64 := do
  atomic (fwriteStep faults path bytes (.ioException (ascii "Failed writing " ++ path)))
  let left ← flushSteps path 0 bytes (pieces path bytes)
  atomic (fcloseStep faults path bytes left)
  removing faults path count

end Calls

section Stages

variable {faults : Schedule} (hfaults : NoFaults faults) {path : Bytes}

include hfaults

variable (pieces : Bytes → Bytes → List ℕ)

/-- A call on a capture that it indexes writes the metadata of the capture's packets. -/
theorem reaches_embedding {fs : World → VirtualFileSystem} {db : Database} {light : LightPcapNg}
    (hdb : db.WritesParquet) (hfs : ServesFiles fs) {pathIn content : Bytes}
    (hexpand : db.expandPath pathIn = path) (hfile : FitsFile content) {world : World}
    (hcontent : world.files path = some content) {rows : List PacketRowData}
    (hrows : Indexable db light path content world.files rows) (address : ℕ) :
    ∃ parquet next, parquet ≠ [] ∧
      db.readParquet parquet =
          some (indexRows rows (scanPacketLocations content) (defaultLinktype rows)) ∧
        next.files = Function.update world.files (tempParquetPath path) (some parquet) ∧
          Reaches (embedIndexSteps faults pieces db fs light pathIn address) world
            (embedding faults pieces path (Int64.ofNat rows.length)) next := by
  obtain ⟨first, second, third, hensured, hfetched, hscanned⟩ :=
    hrows.exec_checks hfaults hfs hfile hcontent
  obtain ⟨parquet, clock, hparquet, hread, hwritten⟩ := exec_writeMetadata hfaults hdb
    (tempParquetPath path) hrows.count hrows.accepts address ⟨world.files, third⟩
  refine ⟨parquet, ⟨Function.update world.files (tempParquetPath path) (some parquet), clock⟩,
    hparquet, hread, rfl, ?_⟩
  rw [embedIndexSteps, hexpand]
  refine ((Performs.atomic _).reaches hensured _).trans ?_
  refine ((Performs.atomic _).reaches hfetched _).trans ?_
  refine ((scanSteps_performs faults path).reaches hscanned _).trans ?_
  rw [if_neg (not_not.mpr hrows.count), writeIndexSteps, bind_assoc]
  refine ((writeMetadataSteps_performs faults db _ _ _ _ address).reaches hwritten _).trans ?_
  rw [bind_assoc]
  exact .refl

/-- It reads the capture and the metadata as they are then. -/
theorem reaches_rewriting {capture parquet : Bytes} {world : World}
    (hcapture : world.files path = some capture)
    (hparquet : world.files (tempParquetPath path) = some parquet) (count : Int64) :
    ∃ next, next.files = world.files ∧ Reaches (embedding faults pieces path count) world
      (rewriting faults pieces path count (pqcapBundle capture parquet)) next := by
  obtain ⟨first, hfirst⟩ := exec_readFileBytes hfaults hcapture
  obtain ⟨second, hsecond⟩ := exec_readFileBytes hfaults
    (show (⟨world.files, first⟩ : World).files (tempParquetPath path) = some parquet from hparquet)
  have hreads : Reaches (embedParquetSteps faults pieces path (tempParquetPath path)) world
      (writeFileSteps faults pieces path (pqcapBundle capture parquet)) ⟨world.files, second⟩ :=
    ((readFileSteps_performs faults path).reaches hfirst _).trans
      ((readFileSteps_performs faults _).reaches hsecond _)
  exact ⟨⟨world.files, second⟩, rfl, hreads.bind _⟩

/-- Opening the capture for the bundle truncates it. -/
theorem reaches_overwriting (path bytes : Bytes) (world : World) (count : Int64) :
    ∃ next, next.files = Function.update world.files path (some []) ∧
      Reaches (rewriting faults pieces path count bytes) world
        (overwriting faults pieces path count bytes) next := by
  rw [rewriting, writeFileSteps, bind_assoc]
  simp only [bind_assoc]
  exact ⟨_, rfl, (Performs.atomic _).reaches (exec_openWriteStep hfaults path world) _⟩

/-- From there the bundle is written, in whatever pieces. -/
theorem reaches_removing {bytes : Bytes} (hbytes : bytes ≠ []) {world : World}
    (htruncated : world.files path = some []) (count : Int64) :
    ∃ next, next.files = Function.update world.files path (some bytes) ∧
      Reaches (overwriting faults pieces path count bytes) world (removing faults path count)
        next := by
  obtain ⟨left, stored, hflushed, hlength, hwhole⟩ := exec_flushSteps (pieces path bytes)
    (handedOver_truncated (show (⟨world.files, world.clock + 1⟩ : World).files path = some []
      from htruncated) bytes)
  have hclosed := exec_fcloseStep_handedOver faults path hlength hwhole
    ⟨world.files, world.clock + 1⟩
  rw [exec_fcloseWritten hfaults] at hclosed
  rw [overwriting]
  refine ⟨_, ?_, ((Performs.atomic _).reaches (exec_fwriteStep hfaults hbytes _ world) _).trans
    (((Performs.perform _).reaches hflushed _).trans ((Performs.atomic _).reaches hclosed _))⟩
  rfl

/-- Removing the metadata, the call ends. -/
theorem reaches_done (world : World) (count : Int64) :
    ∃ next, next.files = Function.update world.files (tempParquetPath path) none ∧
      Reaches (removing faults path count) world (.done (.ok count)) next :=
  ⟨_, rfl, (Performs.atomic _).reaches (exec_remove hfaults (tempParquetPath path) world) _⟩

end Stages

/-- A bundle of no capture has no packets, whatever is embedded below four gigabytes. -/
theorem scan_pqcapBundle_nil {parquet : Bytes} (hfile : FitsFile (pqcapBundle [] parquet))
    (hfits : 12 + (customBody parquet).length < 2 ^ 32) :
    scanPacketLocations (pqcapBundle [] parquet) = [] := by
  have hstop : StopsAt [] ([] : Bytes).length := by
    refine ⟨.here 0, fun hframed => ?_⟩
    have hend : 0 + 12 ≤ ([] : Bytes).length := hframed.1
    rw [List.length_nil] at hend
    omega
  rw [scan_pqcapBundle_of_clean_end [] parquet hfile hfits hstop]
  rfl

section Race

variable {faults : Schedule} (hfaults : NoFaults faults) {path capture parquet : Bytes}

include hfaults

/-- Of two calls that have written their metadata the second may read the capture while the first
has it truncated, and write when the first is done. -/
theorem interleaves_embedding (pieces : Bytes → Bytes → List ℕ) {world : World}
    (hcapture : world.files path = some capture)
    (hparquet : world.files (tempParquetPath path) = some parquet) (count : Int64) :
    ∃ final, Interleaves
        (pair (embedding faults pieces path count) (embedding faults pieces path count)) world
        (pair (.done (.ok count)) (.done (.ok count))) final ∧
      final.files = Function.update (Function.update world.files path
        (some (pqcapBundle [] parquet))) (tempParquetPath path) none := by
  have hne := tempParquetPath_ne path
  -- The first call reads the capture and truncates it.
  obtain ⟨read, hread, hreads⟩ := reaches_rewriting hfaults pieces hcapture hparquet count
  obtain ⟨truncated, htruncated, htruncates⟩ := reaches_overwriting hfaults pieces path
    (pqcapBundle capture parquet) read count
  have hempty : truncated.files path = some [] := by rw [htruncated, Function.update_self]
  have hkept : truncated.files (tempParquetPath path) = some parquet := by
    rw [htruncated, Function.update_of_ne hne, hread, hparquet]
  -- The second reads the empty file, and the first goes on to its end.
  obtain ⟨seen, hseen, hsees⟩ := reaches_rewriting hfaults pieces hempty hkept count
  obtain ⟨written, hwritten, hwrites⟩ := reaches_removing hfaults pieces
    (pqcapBundle_ne_nil capture parquet) ((congrFun hseen path).trans hempty) count
  obtain ⟨ended, hended, hends⟩ := reaches_done hfaults written count
  -- The second replaces what the first has written.
  obtain ⟨again, hagain, htruncates'⟩ := reaches_overwriting hfaults pieces path
    (pqcapBundle [] parquet) ended count
  obtain ⟨rewritten, hrewritten, hwrites'⟩ := reaches_removing hfaults pieces
    (pqcapBundle_ne_nil [] parquet)
    (show again.files path = some [] by rw [hagain, Function.update_self]) count
  obtain ⟨final, hfinal, hends'⟩ := reaches_done hfaults rewritten count
  refine ⟨final, .left hreads (.left htruncates (.right hsees (.left (hwrites.trans hends)
    (.right htruncates' (.right (hwrites'.trans hends') .refl))))), ?_⟩
  rw [hfinal, hrewritten, hagain, hended, hwritten, hseen, htruncated, hread]
  simp only [Function.update_idem]
  rw [Function.update_comm hne.symm, Function.update_idem, Function.update_comm hne,
    Function.update_idem]

end Race

/-- Two calls on one capture, each of which would succeed alone, can destroy it together: their
steps may interleave so that both return the number of packets, and the file is left with their
index and none of the capture. -/
theorem concurrent_embed_loses_capture {faults : Schedule} (hfaults : NoFaults faults)
    (pieces : Bytes → Bytes → List ℕ) {db : Database} (hdb : db.WritesParquet) (hcasts : db.Casts)
    {fs : World → VirtualFileSystem} (hfs : ServesFiles fs) {light : LightPcapNg}
    {pathIn content : Bytes} (hfile : FitsFile content) {world after : World}
    (hcontent : world.files (db.expandPath pathIn) = some content) {packets : List LightPacket}
    (hpackets : capturePackets light (db.expandPath pathIn) (some content) = .ok packets)
    {address : ℕ} {count : Int64}
    (halone : exec (embedPqcapIndex faults fs db light pathIn address) world = (.ok count, after))
    (other : ℕ) :
    count = Int64.ofNat packets.length ∧ ∃ parquet final,
      Interleaves (pair (embedIndexSteps faults pieces db fs light pathIn address)
          (embedIndexSteps faults pieces db fs light pathIn other)) world
          (pair (.done (.ok count)) (.done (.ok count))) final ∧
        final.files = Function.update (Function.update world.files (db.expandPath pathIn)
          (some (pqcapBundle [] parquet))) (tempParquetPath (db.expandPath pathIn)) none ∧
        db.readParquet parquet = some (indexRows (packets.map packetFeatures)
          (scanPacketLocations content) (defaultLinktype (packets.map packetFeatures))) ∧
        (FitsFile (pqcapBundle [] parquet) → 12 + (customBody parquet).length < 2 ^ 32 →
          scanPacketLocations (pqcapBundle [] parquet) = []) := by
  obtain ⟨rows, hrows, hcounted⟩ := indexable_of_success hfaults hdb hfs hfile hcontent halone
  obtain rfl := hrows.rows_eq hcasts hcontent hpackets
  generalize hpath : db.expandPath pathIn = path at *
  have hne := tempParquetPath_ne path
  -- Both calls pass the check and write their metadata.
  obtain ⟨early, first, -, -, hfirst, hindexes⟩ := reaches_embedding hfaults pieces hdb hfs hpath hfile
    hcontent hrows address
  have hsame : first.files path = world.files path := by
    rw [hfirst, Function.update_of_ne hne.symm]
  obtain ⟨parquet, second, -, hread, hsecond, hindexes'⟩ := reaches_embedding hfaults pieces hdb hfs
    hpath hfile (hsame.trans hcontent) (hrows.congr hsame) other
  have hcapture : second.files path = some content := by
    rw [hsecond, Function.update_of_ne hne.symm, hsame, hcontent]
  have hparquet : second.files (tempParquetPath path) = some parquet := by
    rw [hsecond, Function.update_self]
  rw [← hcounted] at hindexes hindexes'
  obtain ⟨final, hrun, hfinal⟩ := interleaves_embedding hfaults pieces hcapture hparquet count
  rw [List.length_map] at hcounted
  refine ⟨hcounted, parquet, final, .left hindexes (.right hindexes' hrun), ?_, hread,
    scan_pqcapBundle_nil⟩
  rw [hfinal, hsecond, hfirst, Function.update_idem, Function.update_comm hne.symm,
    Function.update_idem, Function.update_comm hne]

/-- The capture of one packet can be lost so. -/
theorem oneCapture_lost :
    ∃ parquet final,
      Interleaves (pair
          (embedIndexSteps (fun _ => .succeeds) samplePieces memoryDatabase localFiles blockFiles
            [0x61] 0)
          (embedIndexSteps (fun _ => .succeeds) samplePieces memoryDatabase localFiles blockFiles
            [0x61] 1))
          (worldOf [0x61] (oneCapture 1)) (pair (.done (.ok 1)) (.done (.ok 1))) final ∧
        final.files [0x61] = some (pqcapBundle [] parquet) := by
  obtain ⟨hfile, hplain, hpackets, hscan⟩ := oneCapture_gate 1 (.inr rfl)
  obtain ⟨-, after, -, -, halone⟩ := exec_embed_worldOf hfile hplain hpackets
    (congrArg List.length hscan.symm) (onePacket_accepted 1)
  obtain ⟨-, parquet, final, hrun, hfiles, -⟩ := concurrent_embed_loses_capture (fun _ => rfl)
    samplePieces memoryDatabase_writesParquet memoryDatabase_casts localFiles_serves hfile
    (worldOf_files [0x61] (oneCapture 1)) hpackets halone 1
  refine ⟨parquet, final, hrun, ?_⟩
  rw [hfiles]
  exact (Function.update_of_ne (tempParquetPath_ne _).symm _ _).trans (Function.update_self _ _ _)

end PqcapReader
