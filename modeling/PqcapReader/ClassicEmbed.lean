import PqcapReader.EmbedIndex

/-!
# Indexing a classic capture

The packet table reads classic captures as well, but the scan and the embedding expect
blocks. Nothing but the comparison of two counts keeps a classic capture from being
extended, and the reader of an extended one finds more records or fails.
-/

namespace PqcapReader

open ByteCodec Effects

/-- The call throws and leaves the file's bytes alone, or the classic reader still finds the
records in the file afterwards. -/
def KeepsRecords (path content : Bytes) (records : List LightPacket)
    (outcome : Except Exception Int64 × World) : Prop :=
  ((∃ error, outcome.1 = .error error) ∧ outcome.2.files path = some content) ∨
    ∃ after, outcome.2.files path = some after ∧ ClassicPcapReader.packets path after = .ok records

/-- A bundle is at least 16 bytes longer than its capture. -/
theorem ClassicPcapReader.packets_bundle_ne {path capture parquet : Bytes}
    {records : List LightPacket} (h : ClassicPcapReader.packets path capture = .ok records) :
    ClassicPcapReader.packets path (pqcapBundle capture parquet) ≠ .ok records := by
  intro hbundle
  have hmore : 16 ≤ (customBlock parquet ++ footerBlock capture.length parquet.length).length := by
    rw [List.length_append, footerBlock_length]
    omega
  rw [pqcapBundle_eq_append] at hbundle
  exact Nat.lt_irrefl _ (ClassicPcapReader.packets_append hmore h hbundle)

/-- A classic capture is safe exactly when it ends with a footer block or has another number of
records than the scan finds locations: then the function throws before it writes, whatever
else fails, and otherwise, without faults, it writes a file with other records. -/
theorem embedPqcapIndex_keepsRecords_iff {fs : World → VirtualFileSystem} {db : Database}
    {light : LightPcapNg} {pathIn content : Bytes} {records : List LightPacket} {world : World}
    (hdb : db.WritesParquet) (hcasts : db.Casts) (hfs : ServesFiles fs) (hfile : FitsFile content)
    (hcontent : world.files (db.expandPath pathIn) = some content)
    (hformat : detectCaptureFormat (db.expandPath pathIn) (some content) = .ok .classicPcap)
    (hrecords : ClassicPcapReader.packets (db.expandPath pathIn) content = .ok records)
    (address : ℕ) :
    ((endsWithFooter content = true ∨ records.length ≠ (scanPacketLocations content).length) →
        ∀ faults, KeepsRecords (db.expandPath pathIn) content records
          (exec (embedPqcapIndex faults fs db light pathIn address) world)) ∧
      ∀ faults, NoFaults faults → KeepsRecords (db.expandPath pathIn) content records
          (exec (embedPqcapIndex faults fs db light pathIn address) world) →
        endsWithFooter content = true ∨
          records.length ≠ (scanPacketLocations content).length := by
  have hpackets : capturePackets light (db.expandPath pathIn) (some content) = .ok records := by
    rw [capturePackets, hformat]
    exact hrecords
  constructor
  · intro hgate faults
    rcases exec_embedPqcapIndex_gates faults hfs hfile hcontent address with
      ⟨error, clock, hthrows⟩ | ⟨rows, clock, hplain, hrows, hcount, -⟩
    · rw [hthrows]
      exact .inl ⟨⟨error, rfl⟩, hcontent⟩
    · obtain ⟨packets, hread, -, rfl⟩ := (captureFeatures_eq_ok_iff hcasts _ _ _ _).mp hrows
      rw [hcontent, hpackets] at hread
      rw [← Except.ok.inj hread, List.length_map] at hcount
      rcases hgate with hfooter | hmismatch
      · rw [hplain] at hfooter
        contradiction
      · exact absurd hcount hmismatch
  · intro faults hfaults hkeeps
    by_contra hgate
    rw [not_or, Bool.not_eq_true, not_not] at hgate
    obtain ⟨parquet, after, -, hbundle, hexec⟩ := exec_embedPqcapIndex_ok hfaults hdb hcasts
      hfs hfile hcontent hgate.1 hpackets hgate.2 (classic_accepted hdb hrecords) address
    rw [hexec] at hkeeps
    rcases hkeeps with ⟨⟨error, hthrows⟩, -⟩ | ⟨file, hafter, hread⟩
    · contradiction
    · rw [hbundle, Option.some.injEq] at hafter
      rw [← hafter] at hread
      exact ClassicPcapReader.packets_bundle_ne hrecords hread

/-- A classic capture without records: only its global header. -/
def emptyClassic : Bytes :=
  leBytes 4 0xA1B2C3D4 ++ leBytes 2 2 ++ leBytes 2 4 ++ leBytes 4 0 ++ leBytes 4 0 ++
    leBytes 4 65535 ++ leBytes 4 1

/-- The scan takes the global header for the start of a block longer than the file. -/
theorem emptyClassic_gate : endsWithFooter emptyClassic = false ∧
    scanPacketLocations emptyClassic = [] := by
  decide +kernel

/-- The classic reader reads the global header and no record. -/
theorem emptyClassic_read :
    detectCaptureFormat (memoryDatabase.expandPath [0x61]) (some emptyClassic) =
        .ok .classicPcap ∧
      ClassicPcapReader.packets (memoryDatabase.expandPath [0x61]) emptyClassic = .ok [] := by
  decide +kernel

/-- What the gate says about the capture without records. -/
theorem emptyClassic_keepsRecords_iff :
    ((endsWithFooter emptyClassic = true ∨ 0 ≠ (scanPacketLocations emptyClassic).length) →
      ∀ faults, KeepsRecords [0x61] emptyClassic []
        (exec (embedPqcapIndex faults localFiles memoryDatabase blockFiles [0x61] 0)
          (worldOf [0x61] emptyClassic))) ∧
      ∀ faults, NoFaults faults → KeepsRecords [0x61] emptyClassic []
        (exec (embedPqcapIndex faults localFiles memoryDatabase blockFiles [0x61] 0)
          (worldOf [0x61] emptyClassic)) →
        endsWithFooter emptyClassic = true ∨ 0 ≠ (scanPacketLocations emptyClassic).length :=
  embedPqcapIndex_keepsRecords_iff memoryDatabase_writesParquet memoryDatabase_casts
    localFiles_serves (by decide +kernel) (worldOf_files [0x61] emptyClassic)
    emptyClassic_read.1 emptyClassic_read.2 0

/-- Indexing the capture without records makes the classic reader fail or find records. -/
theorem emptyClassic_loses_records :
    ¬ ∀ (db : Database) (light : LightPcapNg) (fs : World → VirtualFileSystem)
      (pathIn content : Bytes) (records : List LightPacket) (world : World) (address : ℕ)
      (faults : Schedule), db.WritesParquet → db.Casts → ServesFiles fs → FitsFile content →
        world.files (db.expandPath pathIn) = some content →
        detectCaptureFormat (db.expandPath pathIn) (some content) = .ok .classicPcap →
        ClassicPcapReader.packets (db.expandPath pathIn) content = .ok records →
        NoFaults faults → KeepsRecords (db.expandPath pathIn) content records
          (exec (embedPqcapIndex faults fs db light pathIn address) world) := by
  intro h
  have hfaults : NoFaults fun _ => Outcome.succeeds := fun _ => rfl
  have hkeeps := h memoryDatabase blockFiles localFiles [0x61] emptyClassic []
    (worldOf [0x61] emptyClassic) 0 (fun _ => .succeeds) memoryDatabase_writesParquet
    memoryDatabase_casts localFiles_serves (by decide +kernel)
    (worldOf_files [0x61] emptyClassic) emptyClassic_read.1 emptyClassic_read.2
    hfaults
  have hpackets : capturePackets blockFiles (memoryDatabase.expandPath [0x61])
      (some emptyClassic) = .ok [] := by
    decide +kernel
  obtain ⟨parquet, after, -, hbundle, hexec⟩ := exec_embed_worldOf (by decide +kernel)
    emptyClassic_gate.1 hpackets (congrArg List.length emptyClassic_gate.2.symm)
    (List.forall_mem_nil _)
  rw [hexec] at hkeeps
  rcases hkeeps with ⟨⟨error, hthrows⟩, -⟩ | ⟨file, hafter, hread⟩
  · cases hthrows
  · rw [hbundle, Option.some.injEq] at hafter
    rw [← hafter] at hread
    exact ClassicPcapReader.packets_bundle_ne emptyClassic_read.2 hread

end PqcapReader
