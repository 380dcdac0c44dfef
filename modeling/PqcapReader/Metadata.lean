import PqcapReader.Storage
import PqcapReader.BlockScan
import PqcapReader.Database

/-!
# Writing the metadata

`WriteMetadataParquetViaSQL` renders one tuple of literals for each packet row and lets a
temporary database turn the rows into a Parquet file. The text is modelled piece by piece
as the source concatenates it. Read back by the literal rule, it denotes exactly one index
row for each packet row, whatever the strings contain.
-/

namespace PqcapReader

open ByteCodec SqlText Effects

/-- What the extension keeps of a packet for the metadata. -/
structure PacketRowData where
  tsMicros : UInt64 := 0
  origLen : UInt64 := 0
  capturedLength : UInt64 := 0
  interfaceId : UInt64 := 0
  dataLink : UInt16 := 0
  comment : Bytes := []
  packetBytes : Bytes := []
  srcIp : Bytes := []
  dstIp : Bytes := []
  hasSrcPort : Bool := false
  hasDstPort : Bool := false
  srcPort : UInt32 := 0
  dstPort : UInt32 := 0
  protocols : Bytes := []
  deriving DecidableEq, Repr

/-- A text cell of the tuple: NULL for the empty text. -/
def textCell (text : Bytes) : Bytes :=
  if text.isEmpty then ascii "NULL" else ascii "'" ++ escape text ++ ascii "'"

/-- A port cell of the tuple: NULL without a port. -/
def portCell (hasPort : Bool) (port : UInt32) : Bytes :=
  if hasPort then decimal port.toNat else ascii "NULL"

section Tuple

variable (i : ℕ) (row : PacketRowData) (loc : PacketLocation) (defaultLinktype : UInt16)

/-- The link type of a row, the default one for the value zero. -/
def rowLinktype : UInt16 := if row.dataLink ≠ 0 then row.dataLink else defaultLinktype

/-- The captured length of a row, the location's size for the value zero. -/
def rowCaptured : UInt64 := if row.capturedLength ≠ 0 then row.capturedLength else loc.size

/-- The protocols of a row, a fixed text for the empty one. -/
def rowProtocols : Bytes := if row.protocols.isEmpty then ascii "unknown" else row.protocols

/-- The tuple for row `i`. -/
def metadataTuple : Bytes :=
  ascii "(" ++ decimal (UInt64.ofNat (i + 1)).toNat ++ ascii "," ++
    decimal (row.tsMicros * 1000).toNat ++ ascii ",'" ++ escape (rowProtocols row) ++ ascii "'," ++
    textCell row.srcIp ++ ascii "," ++ portCell row.hasSrcPort row.srcPort ++ ascii "," ++
    textCell row.dstIp ++ ascii "," ++ portCell row.hasDstPort row.dstPort ++ ascii "," ++
    decimal row.interfaceId.toNat ++ ascii "," ++
    decimal (rowLinktype row defaultLinktype).toUInt32.toNat ++ ascii "," ++
    decimal (rowCaptured row loc).toNat ++ ascii "," ++ decimal row.origLen.toNat ++ ascii "," ++
    textCell row.comment ++ ascii "," ++ decimal loc.offset.toNat ++ ascii "," ++
    decimal loc.size.toNat ++ ascii "," ++
    decimal (rowLinktype row defaultLinktype).toUInt32.toNat ++ ascii ")"

/-- A text of a row, absent when empty. -/
def presentText (text : Bytes) : Option Bytes := if text.isEmpty then none else some text

/-- The index row that the tuple stands for. -/
def indexRow : IndexRow where
  frameNumber := UInt64.ofNat (i + 1)
  tsNs := row.tsMicros * 1000
  protocols := rowProtocols row
  srcIp := presentText row.srcIp
  srcPort := if row.hasSrcPort then some row.srcPort else none
  dstIp := presentText row.dstIp
  dstPort := if row.hasDstPort then some row.dstPort else none
  interfaceId := row.interfaceId
  dataLink := rowLinktype row defaultLinktype
  capturedLength := rowCaptured row loc
  origLen := row.origLen
  comment := presentText row.comment
  offset := loc.offset
  size := loc.size
  linktype := rowLinktype row defaultLinktype

theorem textCell_eq (text : Bytes) : textCell text = (textOrNull (presentText text)).render := by
  rw [textCell, presentText]
  cases text with
  | nil => rfl
  | cons c rest =>
    simp only [List.isEmpty_cons, Bool.false_eq_true, if_false, textOrNull, Literal.render, quoted]
    rfl

theorem portCell_eq (hasPort : Bool) (port : UInt32) :
    portCell hasPort port = (numberOrNull (if hasPort then some port else none)).render := by
  cases hasPort with
  | false => rfl
  | true => rfl

/-- The concatenated text is the rendered tuple of the index row. -/
theorem metadataTuple_eq :
    metadataTuple i row loc defaultLinktype =
      renderTuple (indexRow i row loc defaultLinktype).toTuple := by
  have hcomma : ascii "," = [comma] := rfl
  have hquote : ascii ",'" = [comma, quote] := rfl
  have hend : ascii "'," = [quote, comma] := rfl
  have hopening : ascii "(" = [opening] := rfl
  have hclosing : ascii ")" = [closing] := rfl
  unfold metadataTuple
  simp only [textCell_eq, portCell_eq, hcomma, hquote, hend, hopening, hclosing,
    UInt16.toNat_toUInt32]
  simp only [indexRow, IndexRow.toTuple, renderTuple, List.flatMap_cons, List.flatMap_nil,
    Literal.render, quoted, List.append_nil, List.nil_append, List.append_assoc, List.cons_append]

end Tuple

/-- The value list of the INSERT statement. -/
def valuesText (rows : List PacketRowData) (locs : List PacketLocation)
    (defaultLinktype : UInt16) : Bytes :=
  ((rows.zip locs).mapIdx fun i pair =>
    (if i > 0 then ascii "," else []) ++
      metadataTuple i pair.1 pair.2 defaultLinktype).flatten

/-- The index rows of the packet rows and their locations. -/
def indexRows (rows : List PacketRowData) (locs : List PacketLocation)
    (defaultLinktype : UInt16) : List IndexRow :=
  (rows.zip locs).mapIdx fun i pair => indexRow i pair.1 pair.2 defaultLinktype

section Values

variable {rows : List PacketRowData} {locs : List PacketLocation} (defaultLinktype : UInt16)

/-- Mapping over an indexed map. -/
theorem map_mapIdx {A B C : Type} (f : B → C) (g : ℕ → A → B) (pieces : List A) :
    (pieces.mapIdx g).map f = pieces.mapIdx fun i piece => f (g i piece) := by
  rw [List.mapIdx_eq_zipIdx_map, List.mapIdx_eq_zipIdx_map, List.map_map]
  rfl

/-- Tuples joined by the loop of the source are the rendered list. -/
theorem flatten_mapIdx_eq {A : Type} (pieces : List A) (tuple : ℕ → A → List Literal) :
    (pieces.mapIdx fun i piece =>
      (if i > 0 then ascii "," else []) ++ renderTuple (tuple i piece)).flatten =
        renderTuples (pieces.mapIdx tuple) := by
  cases pieces with
  | nil => rfl
  | cons first rest =>
    simp only [List.mapIdx_cons, List.flatten_cons, Nat.lt_irrefl, if_false, List.nil_append,
      Nat.zero_lt_succ, if_true, renderTuples, gt_iff_lt]
    congr 1
    rw [List.flatMap_def, map_mapIdx]
    rfl

/-- The value list is the rendered list of the index rows' tuples. -/
theorem valuesText_eq : valuesText rows locs defaultLinktype =
    renderTuples ((indexRows rows locs defaultLinktype).map IndexRow.toTuple) := by
  rw [indexRows, map_mapIdx, ← flatten_mapIdx_eq, valuesText]
  simp only [metadataTuple_eq]

/-- The value list reads as the tuples of the index rows, whatever the strings contain. -/
theorem readValues_valuesText (hrows : rows ≠ []) (hlength : rows.length = locs.length) :
    readValues (valuesText rows locs defaultLinktype) =
      some ((indexRows rows locs defaultLinktype).map IndexRow.toTuple) := by
  have hsome : (indexRows rows locs defaultLinktype).map IndexRow.toTuple ≠ [] := by
    intro hnil
    have hcount := congrArg List.length hnil
    rw [indexRows, List.length_map, List.length_mapIdx, List.length_zip, ← hlength, Nat.min_self,
      List.length_nil] at hcount
    exact hrows (List.eq_nil_of_length_eq_zero hcount)
  rw [valuesText_eq]
  refine readValues_renderTuples hsome fun tuple htuple => ?_
  obtain ⟨row, -, rfl⟩ := List.mem_map.mp htuple
  exact List.cons_ne_nil _ _

/-- The value list is read back as the index rows. -/
theorem readRows_valuesText (hrows : rows ≠ []) (hlength : rows.length = locs.length) :
    readRows (valuesText rows locs defaultLinktype) = some (indexRows rows locs defaultLinktype) := by
  have hback (found : List IndexRow) :
      (found.map IndexRow.toTuple).mapM IndexRow.ofTuple = some found := by
    induction found with
    | nil => rfl
    | cons row found ih =>
      rw [List.map_cons, List.mapM_cons, IndexRow.ofTuple_toTuple, ih]
      rfl
  rw [readRows, readValues_valuesText defaultLinktype hrows hlength, Option.bind_some, hback]

/-- There is one index row for each packet row. -/
theorem indexRows_length (hlength : rows.length = locs.length) :
    (indexRows rows locs defaultLinktype).length = rows.length := by
  rw [indexRows, List.length_mapIdx, List.length_zip, ← hlength, Nat.min_self]

/-- The index row at a position is made of the packet row and the location there. -/
theorem indexRows_getElem? {i : ℕ} {row : PacketRowData} {loc : PacketLocation}
    (hrow : rows[i]? = some row) (hloc : locs[i]? = some loc) :
    (indexRows rows locs defaultLinktype)[i]? = some (indexRow i row loc defaultLinktype) := by
  have hpair : (rows.zip locs)[i]? = some (row, loc) :=
    List.getElem?_zip_eq_some.mpr ⟨hrow, hloc⟩
  rw [indexRows, List.getElem?_mapIdx, hpair, Option.map_some]

/-- The database takes the texts of a metadata row into its statements. -/
def PacketRowData.Accepted (db : Database) (row : PacketRowData) : Prop :=
  ∀ text ∈ [row.protocols, row.srcIp, row.dstIp, row.comment], db.acceptsText text = true

instance (db : Database) (row : PacketRowData) : Decidable (row.Accepted db) :=
  inferInstanceAs (Decidable (∀ text ∈ [row.protocols, row.srcIp, row.dstIp, row.comment],
    db.acceptsText text = true))

/-- Then it takes those of the index rows. -/
theorem accepts_indexRows {db : Database} (hdb : db.WritesParquet)
    (h : ∀ row ∈ rows, row.Accepted db) : db.Accepts (indexRows rows locs defaultLinktype) := by
  intro indexed hindexed text htext
  obtain ⟨i, hi⟩ := List.mem_iff_getElem?.mp hindexed
  rw [indexRows, List.getElem?_mapIdx, Option.map_eq_some_iff] at hi
  obtain ⟨pair, hpair, rfl⟩ := hi
  have hrow := h pair.1 (List.of_mem_zip (List.mem_of_getElem? hpair)).1
  have hpresent {cell : Bytes}
      (hcell : cell ∈ [pair.1.protocols, pair.1.srcIp, pair.1.dstIp, pair.1.comment])
      (hmem : text ∈ (presentText cell).toList) : db.acceptsText text = true := by
    rw [presentText] at hmem
    split at hmem
    · cases hmem
    · rw [List.mem_singleton.mp hmem]
      exact hrow cell hcell
  rcases List.mem_cons.mp htext with rfl | hcells
  · change db.acceptsText (rowProtocols pair.1) = true
    rw [rowProtocols]
    split
    · exact hdb.printable _ (by decide)
    · exact hrow _ (by simp)
  · rcases List.mem_append.mp hcells with hcells | hcomment
    · rcases List.mem_append.mp hcells with hsrc | hdst
      · exact hpresent (by simp) hsrc
      · exact hpresent (by simp) hdst
    · exact hpresent (by simp) hcomment

/-- Every index row is made of the packet row at its position and a location. -/
theorem indexRows_eq_some {i : ℕ} {row : PacketRowData} {indexed : IndexRow}
    (hrow : rows[i]? = some row)
    (hindexed : (indexRows rows locs defaultLinktype)[i]? = some indexed) :
    ∃ loc, indexed = indexRow i row loc defaultLinktype := by
  rw [indexRows, List.getElem?_mapIdx, Option.map_eq_some_iff] at hindexed
  obtain ⟨pair, hpair, rfl⟩ := hindexed
  obtain ⟨hfirst, -⟩ := List.getElem?_zip_eq_some.mp hpair
  rw [hrow, Option.some.injEq] at hfirst
  exact ⟨pair.2, by rw [hfirst]⟩

end Values

section Session

variable (faults : Schedule) (db : Database)

/-- What a failing COPY leaves at its path: what was there before, nothing, or a prefix of the
file. -/
def partialFile (before : Option Bytes) (content : Bytes) : ℕ → Option Bytes
  | 0 => before
  | 1 => none
  | stored + 2 => some (content.take stored)

/-- A statement of the temporary database after earlier ones. A failing statement may leave a part
of the file that it writes. -/
def query (history : List Bytes) (statement : Bytes) : Action (Except Bytes Unit) := do
  match ← tick faults, db.session history statement with
  | .fails stored error, .ok (some (path, content)) =>
    modify fun world => { world with
      files := Function.update world.files path (partialFile (world.files path) content stored) }
    pure (.error error)
  | .fails _ error, _ => pure (.error error)
  | .succeeds, .error error => pure (.error error)
  | .succeeds, .ok none => pure (.ok ())
  | .succeeds, .ok (some (path, content)) =>
    modify (·.store path content)
    pure (.ok ())

/-- Throw when a statement reported an error. -/
def requireSuccess (result : Except Bytes Unit) (message : Bytes) : Action Unit :=
  match result with
  | .error error => throw (.ioException (message ++ error))
  | .ok _ => pure ()

/-- `WriteMetadataParquetViaSQL`; `address` is the address of `rows`, from which the name of
the temporary table is made. -/
def writeMetadataParquetViaSQL (parquetPath : Bytes) (rows : List PacketRowData)
    (locs : List PacketLocation) (defaultLinktype : UInt16) (address : ℕ) : Action Unit := do
  if rows.length ≠ locs.length then
    throw (.ioException
      (ascii "pqcap writer mismatch between packet rows and written packet blocks"))
  else
    let table := tableName address
    let create := createTableSql table
    let insert := insertSql table (valuesText rows locs defaultLinktype)
    requireSuccess (← query faults db [] loadSql)
      (ascii "Failed loading parquet extension in temp writer DB: ")
    requireSuccess (← query faults db [loadSql] create)
      (ascii "Failed creating temp metadata table: ")
    let history ←
      if rows.isEmpty then
        pure [loadSql, create]
      else do
        requireSuccess (← query faults db [loadSql, create] insert)
          (ascii "Failed inserting pqcap metadata rows: ")
        pure [loadSql, create, insert]
    let copy := copyTableSql table parquetPath
    requireSuccess (← query faults db history copy)
      (ascii "Failed writing embedded parquet metadata: ")
    let _ ← query faults db (history ++ [copy]) (dropTableSql table)
    pure ()

variable {db}

/-- A statement that writes no file leaves all files alone, whatever fails and whatever it
answers. -/
theorem exec_query_fileless {history : List Bytes} {statement : Bytes}
    (h : ∀ file, db.session history statement ≠ .ok (some file)) (world : World) :
    ∃ result, exec (query faults db history statement) world =
      (.ok result, ⟨world.files, world.clock + 1⟩) := by
  rw [query, exec_bind, exec_tick_outcome]
  cases hsession : db.session history statement with
  | error error =>
    cases faults world.clock with
    | fails stored text => exact ⟨_, rfl⟩
    | succeeds => exact ⟨_, rfl⟩
  | ok written =>
    cases written with
    | some file => exact absurd hsession (h file)
    | none =>
      cases faults world.clock with
      | fails stored text => exact ⟨_, rfl⟩
      | succeeds => exact ⟨_, rfl⟩

end Session

section WithoutFaults

variable {faults : Schedule} (hfaults : NoFaults faults) {db : Database}
include hfaults

/-- A statement that succeeds and writes no file. -/
theorem exec_query_ok {history : List Bytes} {statement : Bytes}
    (h : db.session history statement = .ok none) (world : World) :
    exec (query faults db history statement) world =
      (.ok (.ok ()), ⟨world.files, world.clock + 1⟩) := by
  rw [query, exec_bind, exec_tick hfaults]
  simp only [h, exec_pure]

/-- A statement that is refused. -/
theorem exec_query_error {history : List Bytes} {statement error : Bytes}
    (h : db.session history statement = .error error) (world : World) :
    exec (query faults db history statement) world =
      (.ok (.error error), ⟨world.files, world.clock + 1⟩) := by
  rw [query, exec_bind, exec_tick hfaults]
  simp only [h, exec_pure]

/-- A statement that succeeds and writes a file. -/
theorem exec_query_write {history : List Bytes} {statement path content : Bytes}
    (h : db.session history statement = .ok (some (path, content))) (world : World) :
    exec (query faults db history statement) world =
      (.ok (.ok ()), ⟨Function.update world.files path (some content), world.clock + 1⟩) := by
  rw [query, exec_bind, exec_tick hfaults]
  simp only [h, exec_bind, exec_modify, exec_pure, World.store]

/-- Without faults the metadata file holds the index rows, when the database takes their texts. -/
theorem exec_writeMetadata (hdb : db.WritesParquet) (parquetPath : Bytes)
    {rows : List PacketRowData} {locs : List PacketLocation} (hlength : rows.length = locs.length)
    {defaultLinktype : UInt16} (haccepts : db.Accepts (indexRows rows locs defaultLinktype))
    (address : ℕ) (world : World) :
    ∃ content clock, content ≠ [] ∧
      db.readParquet content = some (indexRows rows locs defaultLinktype) ∧
        exec (writeMetadataParquetViaSQL faults db parquetPath rows locs defaultLinktype address)
            world =
          (.ok (), ⟨Function.update world.files parquetPath (some content), clock⟩) := by
  rw [writeMetadataParquetViaSQL, if_neg (not_not.mpr hlength)]
  cases rows with
  | nil =>
    obtain ⟨content, hcontent, hread, hcopy⟩ := hdb.copyEmpty address parquetPath
    refine ⟨content, world.clock + 1 + 1 + 1 + 1, hcontent, hread, ?_⟩
    simp only [exec_bind, exec_query_ok hfaults hdb.load, requireSuccess, exec_pure,
      exec_query_ok hfaults (hdb.create address), List.isEmpty_nil, if_true,
      exec_query_write hfaults hcopy]
    obtain ⟨result, hdrop⟩ := exec_query_fileless faults (hdb.drop ([loadSql,
      createTableSql (tableName address)] ++ [copyTableSql (tableName address) parquetPath]) address)
      ⟨Function.update world.files parquetPath (some content), world.clock + 1 + 1 + 1⟩
    rw [hdrop]
  | cons row rest =>
    have hvalues := readRows_valuesText defaultLinktype (List.cons_ne_nil row rest) hlength
    obtain ⟨content, hcontent, hread, hcopy⟩ := hdb.copy address _ _ parquetPath hvalues haccepts
    refine ⟨content, world.clock + 1 + 1 + 1 + 1 + 1, hcontent, hread, ?_⟩
    simp only [exec_bind, exec_query_ok hfaults hdb.load, requireSuccess, exec_pure,
      exec_query_ok hfaults (hdb.create address), List.isEmpty_cons, Bool.false_eq_true, if_false,
      exec_query_ok hfaults (hdb.insert address _ _ hvalues haccepts), exec_query_write hfaults hcopy]
    obtain ⟨result, hdrop⟩ := exec_query_fileless faults (hdb.drop ([loadSql,
      createTableSql (tableName address), insertSql (tableName address)
        (valuesText (row :: rest) locs defaultLinktype)] ++
          [copyTableSql (tableName address) parquetPath]) address)
      ⟨Function.update world.files parquetPath (some content), world.clock + 1 + 1 + 1 + 1⟩
    rw [hdrop]

/-- Without faults a text that the database does not take stops the call before it writes. -/
theorem exec_writeMetadata_rejected (hdb : db.WritesParquet) (parquetPath : Bytes)
    {rows : List PacketRowData} {locs : List PacketLocation} (hlength : rows.length = locs.length)
    {defaultLinktype : UInt16} (hrejects : ¬ db.Accepts (indexRows rows locs defaultLinktype))
    (address : ℕ) (world : World) :
    ∃ error clock,
      exec (writeMetadataParquetViaSQL faults db parquetPath rows locs defaultLinktype address)
          world = (.error error, ⟨world.files, clock⟩) := by
  have hrows : rows ≠ [] := by
    rintro rfl
    exact hrejects fun row hrow => absurd hrow List.not_mem_nil
  have hvalues := readRows_valuesText defaultLinktype hrows hlength
  obtain ⟨error, hsession⟩ := hdb.reject address _ _ hvalues hrejects
  have hsome : rows.isEmpty = false := by rwa [List.isEmpty_eq_false_iff]
  rw [writeMetadataParquetViaSQL, if_neg (not_not.mpr hlength)]
  simp only [exec_bind, exec_query_ok hfaults hdb.load, requireSuccess, exec_pure,
    exec_query_ok hfaults (hdb.create address), hsome, Bool.false_eq_true, if_false,
    exec_query_error hfaults hsession, exec_throw]
  exact ⟨_, _, rfl⟩

/-- Without faults the metadata is written only for as many rows as locations, and when the database
takes their texts. -/
theorem accepts_of_writeMetadata (hdb : db.WritesParquet) {parquetPath : Bytes}
    {rows : List PacketRowData} {locs : List PacketLocation} {defaultLinktype : UInt16} {address : ℕ}
    {world after : World}
    (hsuccess : exec (writeMetadataParquetViaSQL faults db parquetPath rows locs defaultLinktype
      address) world = (.ok (), after)) :
    rows.length = locs.length ∧ db.Accepts (indexRows rows locs defaultLinktype) := by
  by_cases hlength : rows.length = locs.length
  · refine ⟨hlength, by_contra fun hrejects => ?_⟩
    obtain ⟨error, clock, hthrows⟩ := exec_writeMetadata_rejected hfaults hdb parquetPath hlength
      hrejects address world
    rw [hthrows] at hsuccess
    cases hsuccess
  · rw [writeMetadataParquetViaSQL, if_pos hlength, exec_throw] at hsuccess
    cases hsuccess

end WithoutFaults

end PqcapReader
