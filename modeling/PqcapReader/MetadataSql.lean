import PqcapReader.Metadata

/-!
# The rows that the generated SQL carries

The text of the INSERT statement is made of strings that come from packets. Read back by
the rule for literals it is one list of tuples, one for each metadata row and in their
order, whatever the strings contain. Zero stands for an absent link type and an absent
captured length, so these two fall back to the default link type and the location's size.
-/

namespace PqcapReader

open ByteCodec SqlText

/-- The index row holds the values of metadata row `i` and its location. -/
structure CarriesRow (i : ℕ) (row : PacketRowData) (loc : PacketLocation)
    (defaultLinktype : UInt16) (indexed : IndexRow) : Prop where
  frameNumber : i + 1 < 2 ^ 64 → indexed.frameNumber.toNat = i + 1
  tsNs : indexed.tsNs.toNat = row.tsMicros.toNat * 1000 % 2 ^ 64
  protocols : indexed.protocols = if row.protocols = [] then ascii "unknown" else row.protocols
  srcIp : indexed.srcIp = if row.srcIp = [] then none else some row.srcIp
  srcPort : indexed.srcPort = if row.hasSrcPort then some row.srcPort else none
  dstIp : indexed.dstIp = if row.dstIp = [] then none else some row.dstIp
  dstPort : indexed.dstPort = if row.hasDstPort then some row.dstPort else none
  interfaceId : indexed.interfaceId = row.interfaceId
  dataLink : indexed.dataLink = if row.dataLink = 0 then defaultLinktype else row.dataLink
  capturedLength : indexed.capturedLength =
    if row.capturedLength = 0 then loc.size else row.capturedLength
  origLen : indexed.origLen = row.origLen
  comment : indexed.comment = if row.comment = [] then none else some row.comment
  offset : indexed.offset = loc.offset
  size : indexed.size = loc.size
  linktype : indexed.linktype = indexed.dataLink

/-- The index row of the specification carries its row. -/
theorem indexRow_carriesRow (i : ℕ) (row : PacketRowData) (loc : PacketLocation)
    (defaultLinktype : UInt16) :
    CarriesRow i row loc defaultLinktype (indexRow i row loc defaultLinktype) where
  frameNumber h := uint64_ofNat_toNat h
  tsNs := UInt64.toNat_mul ..
  protocols := by simp only [indexRow, rowProtocols, List.isEmpty_iff]
  srcIp := by simp only [indexRow, presentText, List.isEmpty_iff]
  srcPort := rfl
  dstIp := by simp only [indexRow, presentText, List.isEmpty_iff]
  dstPort := rfl
  interfaceId := rfl
  dataLink := by simp only [indexRow, rowLinktype, ne_eq, ite_not]
  capturedLength := by simp only [indexRow, rowCaptured, ne_eq, ite_not]
  origLen := rfl
  comment := by simp only [indexRow, presentText, List.isEmpty_iff]
  offset := rfl
  size := rfl
  linktype := rfl

section Statement

variable {rows : List PacketRowData} {locs : List PacketLocation} (defaultLinktype : UInt16)

/-- The INSERT statement is a single statement, whatever the strings contain. -/
theorem insertSql_keepsStatement (address : ℕ) :
    KeepsStatement (insertSql (tableName address) (valuesText rows locs defaultLinktype)) := by
  have htable : KeepsStatement (tableName address) := by
    have hname : KeepsStatement (ascii "tmp_pqcap_writer_") := by decide +kernel
    exact hname.append (Literal.number address).render_keepsStatement
  have hinsert : KeepsStatement (ascii "INSERT INTO ") := by decide +kernel
  have hvalues : KeepsStatement (ascii " VALUES ") := by decide +kernel
  rw [valuesText_eq]
  exact ((hinsert.append htable).append hvalues).append (renderTuples_keepsStatement _)

/-- The INSERT statement is one statement whose value list reads as one tuple of 15 fields for
each metadata row, in order, and the tuples hold the rows' values. No string ends a literal, adds
a tuple, or ends the statement. -/
theorem metadataSql_carries_rows (hrows : rows ≠ []) (hlength : rows.length = locs.length)
    (address : ℕ) :
    (∃ (tuples : List (List Literal)) (indexed : List IndexRow),
        readValues (valuesText rows locs defaultLinktype) = some tuples ∧
        tuples.length = rows.length ∧ (∀ tuple ∈ tuples, tuple.length = 15) ∧
          tuples.map IndexRow.ofTuple = indexed.map some ∧
            ∀ i row loc, rows[i]? = some row → locs[i]? = some loc →
              ∃ found, indexed[i]? = some found ∧ CarriesRow i row loc defaultLinktype found) ∧
      KeepsStatement (insertSql (tableName address) (valuesText rows locs defaultLinktype)) := by
  refine ⟨⟨_, indexRows rows locs defaultLinktype,
    readValues_valuesText defaultLinktype hrows hlength, ?_, ?_, ?_, ?_⟩,
    insertSql_keepsStatement defaultLinktype address⟩
  · rw [List.length_map, indexRows_length defaultLinktype hlength]
  · intro tuple htuple
    obtain ⟨found, -, rfl⟩ := List.mem_map.mp htuple
    rfl
  · rw [List.map_map]
    exact List.map_congr_left fun found _ => IndexRow.ofTuple_toTuple found
  · intro i row loc hrow hloc
    exact ⟨_, indexRows_getElem? defaultLinktype hrow hloc,
      indexRow_carriesRow i row loc defaultLinktype⟩

end Statement

/-- A comment that tries to end its literal, the tuple, and the statement. -/
theorem metadataSql_carries_comment :
    (∃ (tuples : List (List Literal)) (indexed : List IndexRow),
        readValues (valuesText [{ comment := ascii "x'),(1); --" }] [⟨28, 5⟩] 1) = some tuples ∧
        tuples.length = 1 ∧ (∀ tuple ∈ tuples, tuple.length = 15) ∧
        tuples.map IndexRow.ofTuple = indexed.map some ∧
          ∀ i row loc, ([{ comment := ascii "x'),(1); --" }] : List PacketRowData)[i]? = some row →
            ([⟨28, 5⟩] : List PacketLocation)[i]? = some loc →
              ∃ found, indexed[i]? = some found ∧ CarriesRow i row loc 1 found) ∧
      KeepsStatement (insertSql (tableName 0)
        (valuesText [{ comment := ascii "x'),(1); --" }] [⟨28, 5⟩] 1)) :=
  metadataSql_carries_rows 1 (List.cons_ne_nil _ _) rfl 0

/-- A row without a captured length and a link type gets others. -/
theorem metadataSql_replaces_zero :
    ¬ ∀ (rows : List PacketRowData) (locs : List PacketLocation) (defaultLinktype : UInt16)
      (indexed : List IndexRow), rows ≠ [] → rows.length = locs.length →
        readRows (valuesText rows locs defaultLinktype) = some indexed →
          ∀ (i : ℕ) (row : PacketRowData) (found : IndexRow), rows[i]? = some row →
            indexed[i]? = some found →
              found.capturedLength = row.capturedLength ∧ found.linktype = row.dataLink := by
  intro h
  have hread : readRows (valuesText [{}] [⟨28, 5⟩] 1) = some (indexRows [{}] [⟨28, 5⟩] 1) :=
    readRows_valuesText 1 (List.cons_ne_nil _ _) rfl
  have hkept := h [({} : PacketRowData)] [⟨28, 5⟩] 1 _ (List.cons_ne_nil _ _) rfl hread 0 {}
    (indexRow 0 {} ⟨28, 5⟩ 1) rfl rfl
  exact absurd hkept.1 (by decide)

end PqcapReader
