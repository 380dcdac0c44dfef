import PqcapReader.CopyIndex

/-!
# pqcap_embed_index

`EmbedPqcapIndex` reads the packets of a capture through the packet table, scans the same
file for packet blocks, and embeds the metadata when the two counts agree. Until that
comparison no file changes, whatever fails; after it, and without faults, the capture's
file becomes the bundle.
-/

namespace PqcapReader

open ByteCodec SqlText Effects

section Features

variable (db : Database)

/-- `GetValue` of a cast value. -/
def required {A : Type} (result : Except Exception (Option A)) : Except Exception A := do
  match ← result with
  | none =>
    .error (.internalException (ascii "Calling GetValueInternal on a value that is NULL"))
  | some value => .ok value

/-- The cast of a cell, with the value that a NULL cell leaves. -/
def castOr {A : Type} (cast : Value → Except Exception (Option A)) (value : Value) (absent : A) :
    Except Exception A :=
  if value.isNull then .ok absent else required (cast value)

/-- The text of a cell, empty for NULL. -/
def textOr (value : Value) : Bytes := if value.isNull then [] else db.getString value

/-- The columns that the statement selects, in its order. -/
def featureColumns : List Bytes :=
  [ascii "timestamp_micros", ascii "interface_id", ascii "data_link", ascii "captured_length",
    ascii "orig_len", ascii "comment", ascii "src_ip", ascii "src_port", ascii "dst_ip",
    ascii "dst_port", ascii "l4_protocol"]

/-- One iteration of `FetchPacketFeaturesFromCapture` on a row of the result. -/
def featureRow (row : Row) : Except Exception PacketRowData := do
  let value (column : ℕ) : Value := cell row (some column)
  let tsMicros ← required (db.castBigInt (value 0))
  let interfaceId ← castOr db.castUBigInt (value 1) 0
  let dataLink ← castOr db.castUSmallInt (value 2) 0
  let capturedLength ← castOr db.castUBigInt (value 3) 0
  let origLen ← required (db.castUBigInt (value 4))
  let srcPort ← castOr db.castInteger (value 7) 0
  let dstPort ← castOr db.castInteger (value 9) 0
  .ok {
    tsMicros := tsMicros.toUInt64, interfaceId, dataLink, capturedLength, origLen,
    comment := textOr db (value 5), srcIp := textOr db (value 6), srcPort := srcPort.toUInt32,
    hasSrcPort := !(value 7).isNull, dstIp := textOr db (value 8), dstPort := dstPort.toUInt32,
    hasDstPort := !(value 9).isNull, protocols := lower (textOr db (value 10)) }

variable (light : LightPcapNg) (path : Bytes) (file : Bytes → Option Bytes)

/-- The result of the statement that selects the feature columns of
`read_pqcap_packets('path')`: the path is what the literal in its text denotes. -/
def selectFeatures : Except Exception (List Row) := do
  match readText (quoted path) with
  | none => .error (.binderException (ascii "Parser Error: syntax error"))
  | some source =>
    let rows ← readPqcapPackets db light source (file source)
    pure (rows.map (selectColumns packetColumns featureColumns))

end Features

/-- The metadata rows that the features of a capture become. -/
def captureFeatures (db : Database) (light : LightPcapNg) (path : Bytes)
    (file : Bytes → Option Bytes) : Except Exception (List PacketRowData) :=
  selectFeatures db light path file >>= List.mapM (featureRow db)

/-- The metadata row that a packet's row becomes. -/
def packetFeatures (packet : LightPacket) : PacketRowData :=
  let header := packet.header
  let parsed := l4Fields header.dataLink packet.bytes
  { tsMicros := (timestampMicros header).toUInt64
    interfaceId := header.interfaceId.toUInt64
    dataLink := header.dataLink
    capturedLength := header.capturedLength.toUInt64
    origLen := header.originalLength.toUInt64
    comment := header.commentText
    srcIp := parsed.srcIp
    dstIp := parsed.dstIp
    srcPort := if parsed.hasPorts then parsed.srcPort.toUInt32 else 0
    dstPort := if parsed.hasPorts then parsed.dstPort.toUInt32 else 0
    hasSrcPort := parsed.hasPorts
    hasDstPort := parsed.hasPorts
    protocols := lower parsed.l4Protocol }

section FeatureRows

variable {db : Database} (hdb : db.Casts)

include hdb

/-- A NULL cell stands for the empty text, and both are read as it. -/
theorem textOr_varcharOrNull (text : Bytes) : textOr db (varcharOrNull text) = text := by
  cases text with
  | nil => rfl
  | cons c rest => exact hdb.string (c :: rest)

/-- A port cell is read as the port when there is one. -/
theorem castOr_portValue (hasPorts : Bool) (port : Int32) :
    castOr db.castInteger (portValue hasPorts port) 0 = .ok (if hasPorts then port else 0) ∧
      (portValue hasPorts port).isNull = !hasPorts := by
  cases hasPorts with
  | false => exact ⟨rfl, rfl⟩
  | true =>
    refine ⟨?_, rfl⟩
    change required (db.castInteger (.integer port)) = _
    rw [hdb.integer]
    rfl

/-- The selected columns of a packet's row become its features. -/
theorem featureRow_packetRow (packet : LightPacket) :
    featureRow db (selectColumns packetColumns featureColumns (packetRow packet)) =
      .ok (packetFeatures packet) := by
  have hcolumns : selectColumns packetColumns featureColumns (packetRow packet) =
      [0, 1, 2, 3, 4, 5, 6, 8, 7, 9, 10].map ((packetRow packet).getD · .null) := rfl
  have hubigint (v : UInt64) : castOr db.castUBigInt (.ubigint v) 0 = .ok v := by
    change required (db.castUBigInt (.ubigint v)) = _
    rw [hdb.ubigintUBigInt]
    rfl
  have husmallint (v : UInt16) : castOr db.castUSmallInt (.usmallint v) 0 = .ok v := by
    change required (db.castUSmallInt (.usmallint v)) = _
    rw [hdb.usmallint]
    rfl
  have hlabel (text : Bytes) : textOr db (.varchar text) = text := hdb.string text
  rw [hcolumns]
  simp only [featureRow, cell, packetRow, List.map_cons, List.map_nil, Option.bind_some,
    List.getElem?_cons_zero, List.getElem?_cons_succ, Option.getD_some, List.getD_cons_zero,
    List.getD_cons_succ, hdb.bigint, hdb.ubigintUBigInt, hubigint, husmallint, hlabel, required,
    textOr_varcharOrNull hdb, (castOr_portValue hdb _ _).1, (castOr_portValue hdb _ _).2]
  simp only [bind, Except.bind, packetFeatures]
  cases (l4Fields packet.header.dataLink packet.bytes).hasPorts with
  | false => rfl
  | true => rfl

/-- The features of a capture are those of its packets, whatever characters its path holds, when
all comments are texts. -/
theorem captureFeatures_eq_ok_iff (light : LightPcapNg) (path : Bytes)
    (file : Bytes → Option Bytes) (rows : List PacketRowData) :
    captureFeatures db light path file = .ok rows ↔
      ∃ packets, capturePackets light path (file path) = .ok packets ∧
        (∀ packet ∈ packets, packet.ShowsComment db) ∧ packets.map packetFeatures = rows := by
  have hfeatures (packets : List LightPacket) :
      ((packets.map packetRow).map (selectColumns packetColumns featureColumns)).mapM
        (featureRow db) = .ok (packets.map packetFeatures) := by
    refine except_mapM_eq_ok.mpr ?_
    rw [List.forall₂_map_left_iff, List.forall₂_map_left_iff, List.forall₂_map_right_iff,
      List.forall₂_same]
    exact fun packet _ => featureRow_packetRow hdb packet
  rw [captureFeatures, except_bind_eq_ok, selectFeatures, readText_quoted]
  simp only [except_bind_eq_ok, readPqcapPackets_eq_ok_iff]
  constructor
  · rintro ⟨_, ⟨_, ⟨packets, hpackets, hshow, rfl⟩, hselected⟩, hrows⟩
    obtain rfl := Except.ok.inj hselected
    exact ⟨packets, hpackets, hshow, Except.ok.inj ((hfeatures packets).symm.trans hrows)⟩
  · rintro ⟨packets, hpackets, hshow, rfl⟩
    exact ⟨_, ⟨_, ⟨packets, hpackets, hshow, rfl⟩, rfl⟩, hfeatures packets⟩

end FeatureRows

section Texts

variable {db : Database} (hdb : db.WritesParquet)

theorem printable_lower {text : Bytes} (h : Printable text) : Printable (lower text) := by
  intro c hc
  obtain ⟨original, horiginal, rfl⟩ := List.mem_map.mp hc
  have hvisible := h original horiginal
  split
  · rename_i hletter
    simp only [UInt8.le_iff_toNat_le, UInt8.toNat_add] at hletter ⊢
    have hlow : (65 : UInt8).toNat = 65 := rfl
    have hhigh : (90 : UInt8).toNat = 90 := rfl
    have hoffset : (32 : UInt8).toNat = 32 := rfl
    have hlast : (126 : UInt8).toNat = 126 := rfl
    omega
  · exact hvisible

include hdb

/-- The database takes a comment that it accepts as a text. -/
theorem LightPacket.showsComment {packet : LightPacket}
    (h : db.acceptsText packet.header.commentText = true) : packet.ShowsComment db :=
  .inr (hdb.valid _ h)

/-- Of the texts of a packet's features only the comment may be one that is not accepted. -/
theorem packetFeatures_accepted {packet : LightPacket}
    (h : db.acceptsText packet.header.commentText = true) : (packetFeatures packet).Accepted db := by
  have hfields := (l4Fields_wellFormed packet.header.dataLink packet.bytes).printable
  intro text htext
  simp only [packetFeatures, List.mem_cons, List.not_mem_nil, or_false] at htext
  rcases htext with rfl | rfl | rfl | rfl
  · exact hdb.printable _ (printable_lower hfields.2.2)
  · exact hdb.printable _ hfields.1
  · exact hdb.printable _ hfields.2.1
  · exact h

/-- The records of a classic capture have none. -/
theorem classic_accepted {path content : Bytes} {records : List LightPacket}
    (h : ClassicPcapReader.packets path content = .ok records) :
    ∀ packet ∈ records, db.acceptsText packet.header.commentText = true := by
  intro packet hpacket
  rw [LightPacketHeader.commentText, ClassicPcapReader.packets_uncommented h packet hpacket]
  exact hdb.printable [] (List.forall_mem_nil _)

end Texts

section Embed

variable (faults : Schedule) (fs : World → VirtualFileSystem) (db : Database)
  (light : LightPcapNg)

/-- `EnsurePlainCapture` on the files as they are. -/
def ensurePlainCaptureAt (path : Bytes) : Action Unit := do
  match ← tick faults with
  | .fails _ error => throw (.ioException error)
  | .succeeds =>
    let world ← get
    fromExcept (ensurePlainCapture (fs world) path)

def fetchPacketFeaturesFromCapture (path : Bytes) : Action (List PacketRowData) := do
  let failure := ascii "pqcap_embed_index: failed reading capture features: "
  match ← tick faults with
  | .fails _ error => throw (.ioException (failure ++ error))
  | .succeeds =>
    let world ← get
    match selectFeatures db light path world.files with
    | .error error => throw (.ioException (failure ++ db.errorText error))
    | .ok result => fromExcept (result.mapM (featureRow db))

/-- The link type for rows without one: that of the first row, or Ethernet. -/
def defaultLinktype (rows : List PacketRowData) : UInt16 :=
  match rows with
  | [] => 1
  | first :: _ => if first.dataLink ≠ 0 then first.dataLink else 1

/-- The part of `EmbedPqcapIndex` that writes: the metadata, the bundle, and the removal of the
temporary file. -/
def writeIndex (path : Bytes) (rows : List PacketRowData) (locations : List PacketLocation)
    (linktype : UInt16) (address : ℕ) : Action Unit := do
  writeMetadataParquetViaSQL faults db (tempParquetPath path) rows locations linktype address
  embedParquetInPqcap faults path (tempParquetPath path)
  remove faults (tempParquetPath path)

/-- `EmbedPqcapIndex`; `address` is the address of `rows`. -/
def embedPqcapIndex (pathIn : Bytes) (address : ℕ) : Action Int64 := do
  let path := db.expandPath pathIn
  ensurePlainCaptureAt faults fs path
  let rows ← fetchPacketFeaturesFromCapture faults db light path
  let locations ← scanPacketLocationsAt faults path
  if rows.length ≠ locations.length then
    throw (.ioException
      (ascii "pqcap_embed_index: packet count mismatch (features=" ++ decimal rows.length ++
        ascii " blocks=" ++ decimal locations.length ++ ascii ") in " ++ path))
  else
    writeIndex faults db path rows locations (defaultLinktype rows) address
    pure (Int64.ofNat rows.length)

end Embed

/-- The file system of the database serves the files of the world. -/
def ServesFiles (fs : World → VirtualFileSystem) : Prop :=
  ∀ (world : World) (path content : Bytes), FitsFile content → world.files path = some content →
    ∃ handle, fs world path fileFlagsRead = .ok (some handle) ∧ handle.Holds content

/-- A file system over the files of the world. -/
def localFiles (world : World) : VirtualFileSystem := fun path _ =>
  match world.files path with
  | some content => .ok (some (FileHandle.ofContent content))
  | none => .error (.ioException (ascii "Cannot open file \"" ++ path ++ ascii "\""))

theorem localFiles_serves : ServesFiles localFiles := by
  intro world path content hfile hcontent
  refine ⟨FileHandle.ofContent content, ?_, FileHandle.ofContent_holds content hfile⟩
  rw [localFiles, hcontent]

/-- A world with one file. -/
def worldOf (path content : Bytes) : World :=
  ⟨Function.update (fun _ => none) path (some content), 0⟩

theorem worldOf_files (path content : Bytes) :
    (worldOf path content).files (memoryDatabase.expandPath path) = some content := by
  change Function.update (fun _ => none) path (some content) path = some content
  rw [Function.update_self]

section Gates

variable {faults : Schedule} {fs : World → VirtualFileSystem} {db : Database}
  {light : LightPcapNg} {path content : Bytes} {world : World}

/-- Whatever fails, checking for a footer changes no file, and passes only without one. -/
theorem exec_ensurePlainCaptureAt (faults : Schedule) (hfs : ServesFiles fs) (hfile : FitsFile content)
    (hcontent : world.files path = some content) :
    ∃ result clock,
      exec (ensurePlainCaptureAt faults fs path) world = (result, ⟨world.files, clock⟩) ∧
        (result = .ok () → endsWithFooter content = false) ∧
        (NoFaults faults → endsWithFooter content = false → result = .ok ()) := by
  obtain ⟨handle, hopen, hholds⟩ := hfs ⟨world.files, world.clock + 1⟩ path content hfile hcontent
  rw [ensurePlainCaptureAt, exec_bind, exec_tick_outcome]
  cases houtcome : faults world.clock with
  | fails stored error =>
    refine ⟨_, _, rfl, fun h => by contradiction, fun hfaults => ?_⟩
    rw [hfaults world.clock] at houtcome
    contradiction
  | succeeds =>
    refine ⟨_, _, rfl, ?_, fun _ hplain => ?_⟩
    · rw [ensurePlainCapture_eq hopen hholds]
      cases endsWithFooter content with
      | false => exact fun _ => rfl
      | true => exact fun h => by contradiction
    · rw [ensurePlainCapture_eq hopen hholds, hplain]
      rfl

/-- Whatever fails, reading the features changes no file, and returns only what the statement
selects. -/
theorem exec_fetchPacketFeatures (faults : Schedule) (db : Database) (light : LightPcapNg)
    (path : Bytes) (world : World) :
    ∃ result clock, exec (fetchPacketFeaturesFromCapture faults db light path) world =
        (result, ⟨world.files, clock⟩) ∧
      (∀ rows, result = .ok rows → captureFeatures db light path world.files = .ok rows) ∧
      (NoFaults faults → ∀ rows, captureFeatures db light path world.files = .ok rows →
        result = .ok rows) := by
  rw [fetchPacketFeaturesFromCapture, exec_bind, exec_tick_outcome, captureFeatures]
  cases houtcome : faults world.clock with
  | fails stored error =>
    refine ⟨_, _, rfl, fun _ h => by contradiction, fun hfaults => ?_⟩
    rw [hfaults world.clock] at houtcome
    contradiction
  | succeeds =>
    simp only [exec_bind, exec_get]
    cases hselect : selectFeatures db light path world.files with
    | error error => exact ⟨_, _, rfl, fun _ h => by contradiction, fun _ _ h => by contradiction⟩
    | ok result => exact ⟨_, _, rfl, fun _ h => h, fun _ _ h => h⟩

/-- Whatever fails, the scan changes no file, and returns only the locations in the file. -/
theorem exec_scanPacketLocationsAt_outcome (faults : Schedule) {path content : Bytes}
    {world : World} (hcontent : world.files path = some content) :
    ∃ result clock, exec (scanPacketLocationsAt faults path) world =
        (result, ⟨world.files, clock⟩) ∧
      ∀ locations, result = .ok locations → locations = scanPacketLocations content := by
  rw [scanPacketLocationsAt, exec_bind, fopenRead, exec_bind, exec_tick_outcome]
  cases faults world.clock with
  | fails stored error => exact ⟨_, _, rfl, fun _ h => by contradiction⟩
  | succeeds =>
    simp only [exec_bind, exec_get, exec_pure, hcontent, freadAll, exec_ite, exec_tick_outcome]
    cases content with
    | nil => exact ⟨_, _, rfl, fun _ h => (Except.ok.inj h).symm⟩
    | cons byte rest =>
      simp only [List.isEmpty_cons, Bool.false_eq_true, if_false]
      cases faults (world.clock + 1) with
      | fails stored error => exact ⟨_, _, rfl, fun _ h => by contradiction⟩
      | succeeds => exact ⟨_, _, rfl, fun _ h => (Except.ok.inj h).symm⟩

/-- Whatever fails, the function either throws before it has changed a file, or the capture has
no footer, its features can be read, and they are as many as the locations. -/
theorem exec_embedPqcapIndex_gates (faults : Schedule) (hfs : ServesFiles fs) {pathIn : Bytes}
    (hfile : FitsFile content) (hcontent : world.files (db.expandPath pathIn) = some content)
    (address : ℕ) :
    (∃ error clock, exec (embedPqcapIndex faults fs db light pathIn address) world =
        (.error error, ⟨world.files, clock⟩)) ∨
      ∃ rows clock, endsWithFooter content = false ∧
        captureFeatures db light (db.expandPath pathIn) world.files = .ok rows ∧
        rows.length = (scanPacketLocations content).length ∧
        exec (embedPqcapIndex faults fs db light pathIn address) world =
          exec (do
            writeIndex faults db (db.expandPath pathIn) rows (scanPacketLocations content)
              (defaultLinktype rows) address
            pure (Int64.ofNat rows.length)) ⟨world.files, clock⟩ := by
  rw [embedPqcapIndex]
  obtain ⟨plain, first, hplain, hfooter, -⟩ := exec_ensurePlainCaptureAt faults hfs
    hfile hcontent
  cases plain with
  | error error => exact .inl ⟨error, first, exec_bind_error _ hplain⟩
  | ok _ =>
    rw [exec_bind_ok _ hplain]
    obtain ⟨fetched, second, hfetched, hrows, -⟩ := exec_fetchPacketFeatures faults db light
      (db.expandPath pathIn) ⟨world.files, first⟩
    cases fetched with
    | error error => exact .inl ⟨error, second, exec_bind_error _ hfetched⟩
    | ok rows =>
      rw [exec_bind_ok _ hfetched]
      obtain ⟨scanned, third, hscanned, hlocations⟩ := exec_scanPacketLocationsAt_outcome faults
        (show (⟨world.files, second⟩ : World).files (db.expandPath pathIn) = some content from
          hcontent)
      cases scanned with
      | error error => exact .inl ⟨error, third, exec_bind_error _ hscanned⟩
      | ok locations =>
        rw [exec_bind_ok _ hscanned, hlocations locations rfl, exec_ite]
        by_cases hcount : rows.length = (scanPacketLocations content).length
        · refine .inr ⟨rows, third, hfooter rfl, hrows rows rfl, hcount, ?_⟩
          rw [if_neg (not_not.mpr hcount)]
        · rw [if_pos hcount]
          exact .inl ⟨_, third, rfl⟩

/-- A capture that `EmbedPqcapIndex` indexes as the rows. -/
structure Indexable (db : Database) (light : LightPcapNg) (path content : Bytes)
    (files : Bytes → Option Bytes) (rows : List PacketRowData) : Prop where
  plain : endsWithFooter content = false
  selected : captureFeatures db light path files = .ok rows
  count : rows.length = (scanPacketLocations content).length
  accepts : db.Accepts (indexRows rows (scanPacketLocations content) (defaultLinktype rows))

/-- A capture without a footer that has as many packets as locations, and comments that the database
takes. -/
theorem indexable_of_packets (hdb : db.WritesParquet) (hcasts : db.Casts) {path : Bytes}
    {files : Bytes → Option Bytes} (hcontent : files path = some content)
    (hplain : endsWithFooter content = false) {packets : List LightPacket}
    (hpackets : capturePackets light path (some content) = .ok packets)
    (hcount : packets.length = (scanPacketLocations content).length)
    (haccepts : ∀ packet ∈ packets, db.acceptsText packet.header.commentText = true) :
    Indexable db light path content files (packets.map packetFeatures) where
  plain := hplain
  selected := (captureFeatures_eq_ok_iff hcasts _ _ _ _).mpr ⟨packets, hcontent.symm ▸ hpackets,
    fun packet hpacket => LightPacket.showsComment hdb (haccepts packet hpacket), rfl⟩
  count := by rw [List.length_map, hcount]
  accepts := accepts_indexRows _ hdb fun data hdata => by
    obtain ⟨packet, hpacket, rfl⟩ := List.mem_map.mp hdata
    exact packetFeatures_accepted hdb (haccepts packet hpacket)

/-- What is selected from a capture depends on the file at its path only. -/
theorem captureFeatures_congr {files files' : Bytes → Option Bytes} {path : Bytes}
    (h : files' path = files path) :
    captureFeatures db light path files' = captureFeatures db light path files := by
  simp only [captureFeatures, selectFeatures, readText_quoted, h]

theorem Indexable.congr {files files' : Bytes → Option Bytes} {path : Bytes}
    {rows : List PacketRowData} (hsame : files' path = files path)
    (h : Indexable db light path content files rows) :
    Indexable db light path content files' rows :=
  ⟨h.plain, (captureFeatures_congr hsame).trans h.selected, h.count, h.accepts⟩

/-- The rows are those of the packets. -/
theorem Indexable.rows_eq (hcasts : db.Casts) {path : Bytes} {files : Bytes → Option Bytes}
    (hcontent : files path = some content) {packets : List LightPacket}
    (hpackets : capturePackets light path (some content) = .ok packets) {rows : List PacketRowData}
    (h : Indexable db light path content files rows) : rows = packets.map packetFeatures := by
  obtain ⟨packets', hpackets', -, rfl⟩ := (captureFeatures_eq_ok_iff hcasts _ _ _ _).mp h.selected
  rw [hcontent, hpackets] at hpackets'
  rw [Except.ok.inj hpackets']

/-- Then the checks pass, and the rows and the locations are read. -/
theorem Indexable.exec_checks (hfaults : NoFaults faults) (hfs : ServesFiles fs) {path : Bytes}
    (hfile : FitsFile content) {rows : List PacketRowData}
    (hcontent : world.files path = some content)
    (h : Indexable db light path content world.files rows) :
    ∃ first second third,
      exec (ensurePlainCaptureAt faults fs path) world = (.ok (), ⟨world.files, first⟩) ∧
        exec (fetchPacketFeaturesFromCapture faults db light path) ⟨world.files, first⟩ =
          (.ok rows, ⟨world.files, second⟩) ∧
        exec (scanPacketLocationsAt faults path) ⟨world.files, second⟩ =
          (.ok (scanPacketLocations content), ⟨world.files, third⟩) := by
  obtain ⟨plain, first, hensured, -, hpasses⟩ := exec_ensurePlainCaptureAt faults hfs
    hfile hcontent
  obtain ⟨fetched, second, hfetched, -, hfeatures⟩ := exec_fetchPacketFeatures faults db light
    path ⟨world.files, first⟩
  obtain ⟨third, hscanned⟩ := exec_scanPacketLocationsAt hfaults
    (show (⟨world.files, second⟩ : World).files path = some content from hcontent)
  rw [hpasses hfaults h.plain] at hensured
  rw [hfeatures hfaults _ h.selected] at hfetched
  exact ⟨first, second, third, hensured, hfetched, hscanned⟩

/-- Without faults only such a capture is indexed. -/
theorem indexable_of_success (hfaults : NoFaults faults) (hdb : db.WritesParquet)
    (hfs : ServesFiles fs) {pathIn : Bytes} (hfile : FitsFile content)
    (hcontent : world.files (db.expandPath pathIn) = some content) {address : ℕ} {count : Int64}
    {after : World} (hsuccess : exec (embedPqcapIndex faults fs db light pathIn address) world =
      (.ok count, after)) :
    ∃ rows, Indexable db light (db.expandPath pathIn) content world.files rows ∧
      count = Int64.ofNat rows.length := by
  rcases exec_embedPqcapIndex_gates faults hfs hfile hcontent address with
    ⟨error, clock, hthrows⟩ | ⟨rows, clock, hplain, hrows, hcount, hexec⟩
  · rw [hthrows] at hsuccess
    cases hsuccess
  · obtain ⟨_, _, hindexed, hreturns⟩ := exec_bind_eq_ok (hexec.symm.trans hsuccess)
    obtain ⟨_, _, hwritten, -⟩ := exec_bind_eq_ok hindexed
    exact ⟨rows, ⟨hplain, hrows, hcount, (accepts_of_writeMetadata hfaults hdb hwritten).2⟩,
      (Except.ok.inj (Prod.mk.inj hreturns).1).symm⟩

/-- Without faults it becomes the bundle of itself and the metadata of its rows. -/
theorem Indexable.exec_embedPqcapIndex (hfaults : NoFaults faults) (hdb : db.WritesParquet)
    (hfs : ServesFiles fs) {pathIn : Bytes} (hfile : FitsFile content)
    (hcontent : world.files (db.expandPath pathIn) = some content) {rows : List PacketRowData}
    (h : Indexable db light (db.expandPath pathIn) content world.files rows) (address : ℕ) :
    ∃ parquet after, parquet ≠ [] ∧
      db.readParquet parquet =
          some (indexRows rows (scanPacketLocations content) (defaultLinktype rows)) ∧
        after.files (db.expandPath pathIn) = some (pqcapBundle content parquet) ∧
          exec (embedPqcapIndex faults fs db light pathIn address) world =
            (.ok (Int64.ofNat rows.length), after) := by
  obtain ⟨first, second, third, hensured, hfetched, hscanned⟩ :=
    h.exec_checks hfaults hfs hfile hcontent
  obtain ⟨parquet, after, hsome, hread, hbundle, hwrite⟩ := exec_indexCapture hfaults hdb
    (show (⟨world.files, third⟩ : World).files (db.expandPath pathIn) = some content from hcontent)
    h.count h.accepts address
  refine ⟨parquet, after, hsome, hread, hbundle, ?_⟩
  rw [PqcapReader.embedPqcapIndex, exec_bind_ok _ hensured, exec_bind_ok _ hfetched,
    exec_bind_ok _ hscanned, exec_ite, if_neg (not_not.mpr h.count)]
  exact exec_bind_ok _ hwrite

theorem exec_embedPqcapIndex_ok (hfaults : NoFaults faults) (hdb : db.WritesParquet)
    (hcasts : db.Casts) (hfs : ServesFiles fs) {pathIn : Bytes} (hfile : FitsFile content)
    (hcontent : world.files (db.expandPath pathIn) = some content)
    (hplain : endsWithFooter content = false) {packets : List LightPacket}
    (hpackets : capturePackets light (db.expandPath pathIn) (some content) = .ok packets)
    (hcount : packets.length = (scanPacketLocations content).length)
    (haccepts : ∀ packet ∈ packets, db.acceptsText packet.header.commentText = true)
    (address : ℕ) :
    ∃ parquet after,
      db.readParquet parquet = some (indexRows (packets.map packetFeatures)
          (scanPacketLocations content) (defaultLinktype (packets.map packetFeatures))) ∧
        after.files (db.expandPath pathIn) = some (pqcapBundle content parquet) ∧
          exec (embedPqcapIndex faults fs db light pathIn address) world =
            (.ok (Int64.ofNat packets.length), after) := by
  obtain ⟨parquet, after, -, hindexed⟩ := (indexable_of_packets hdb hcasts hcontent hplain hpackets
    hcount haccepts).exec_embedPqcapIndex hfaults hdb hfs hfile hcontent address
  rw [List.length_map] at hindexed
  exact ⟨parquet, after, hindexed⟩

/-- What a successful call without faults leaves: the bundle of the capture and the metadata of
its packets, of which there are as many as locations. -/
theorem exec_embedPqcapIndex_success (hfaults : NoFaults faults) (hdb : db.WritesParquet)
    (hcasts : db.Casts) (hfs : ServesFiles fs) {pathIn : Bytes} (hfile : FitsFile content)
    (hcontent : world.files (db.expandPath pathIn) = some content) {packets : List LightPacket}
    (hpackets : capturePackets light (db.expandPath pathIn) (some content) = .ok packets)
    {address : ℕ} {count : Int64} {after : World}
    (hsuccess : exec (embedPqcapIndex faults fs db light pathIn address) world =
      (.ok count, after)) :
    packets.length = (scanPacketLocations content).length ∧
      ∃ parquet, after.files (db.expandPath pathIn) = some (pqcapBundle content parquet) ∧
        db.readParquet parquet = some (indexRows (packets.map packetFeatures)
          (scanPacketLocations content) (defaultLinktype (packets.map packetFeatures))) := by
  obtain ⟨rows, hindexable, -⟩ := indexable_of_success hfaults hdb hfs hfile hcontent hsuccess
  obtain rfl := hindexable.rows_eq hcasts hcontent hpackets
  obtain ⟨parquet, after', -, hread, hbundle, hexec⟩ :=
    hindexable.exec_embedPqcapIndex hfaults hdb hfs hfile hcontent address
  obtain rfl : after = after' := (Prod.mk.inj (hsuccess.symm.trans hexec)).2
  have hcount := hindexable.count
  rw [List.length_map] at hcount
  exact ⟨hcount, parquet, hbundle, hread⟩

end Gates

theorem onePacket_accepted (linktype : UInt16) : ∀ packet ∈ [onePacket linktype],
    memoryDatabase.acceptsText packet.header.commentText = true := by
  intro packet hpacket
  rw [List.mem_singleton.mp hpacket]
  rfl

/-- Indexing a capture in a world of its own. -/
theorem exec_embed_worldOf {path content : Bytes} {packets : List LightPacket}
    (hfile : FitsFile content) (hplain : endsWithFooter content = false)
    (hpackets : capturePackets blockFiles (memoryDatabase.expandPath path) (some content) =
      .ok packets) (hcount : packets.length = (scanPacketLocations content).length)
    (haccepts : ∀ packet ∈ packets,
      memoryDatabase.acceptsText packet.header.commentText = true) :
    ∃ parquet after,
      memoryDatabase.readParquet parquet = some (indexRows (packets.map packetFeatures)
          (scanPacketLocations content) (defaultLinktype (packets.map packetFeatures))) ∧
        after.files (memoryDatabase.expandPath path) = some (pqcapBundle content parquet) ∧
          exec (embedPqcapIndex (fun _ => .succeeds) localFiles memoryDatabase blockFiles path 0)
            (worldOf path content) = (.ok (Int64.ofNat packets.length), after) := by
  have hfaults : NoFaults fun _ => Outcome.succeeds := fun _ => rfl
  exact exec_embedPqcapIndex_ok hfaults memoryDatabase_writesParquet memoryDatabase_casts
    localFiles_serves hfile (worldOf_files path content) hplain hpackets hcount haccepts 0

end PqcapReader
