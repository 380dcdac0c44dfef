import PqcapReader.CopyIndex

/-!
# The values that COPY writes

A row's numbers are parsed as 64-bit values, then narrowed on their way into the packet
header and into the index, each on a route of its own, and the payload is taken as the
database's text of the BLOB. The values survive exactly when that text is the BLOB, when
the numbers fit the narrower fields, when a link type of zero is not replaced by the
default one, and when a given captured length is the payload's. The link type option is
checked against its width when the statement is bound; the columns are not.
-/

namespace PqcapReader

open ByteCodec Effects

section Columns

variable (db : Database) (cfg : PqcapCopyBindData) (row : Row)

/-- The number in a column of a row, `none` when the column is missing or NULL. -/
def columnValue (idx : Option ℕ) : Option UInt64 :=
  (presentCell row idx).bind fun value => ((db.castUBigInt value).toOption).join

/-- A parsed number is the number of its cast. -/
theorem parseUInt64_eq_ok {value : Value} {name : Bytes} {v : UInt64}
    (h : parseUInt64 db value name = .ok v) : db.castUBigInt value = .ok (some v) := by
  rw [parseUInt64, except_bind_eq_ok] at h
  obtain ⟨found, hcast, hfound⟩ := h
  cases found with
  | none => cases hfound
  | some w =>
    rw [hcast, Except.ok.inj hfound]

/-- An optional number is the column's value, or the given one without a value. -/
theorem optionalUInt64_eq_ok {idx : Option ℕ} {name : Bytes} {absent v : UInt64}
    (h : optionalUInt64 db row idx name absent = .ok v) :
    v = (columnValue db row idx).getD absent ∧
      (columnValue db row idx).isSome = (presentCell row idx).isSome := by
  rw [optionalUInt64] at h
  rw [columnValue]
  cases hcell : presentCell row idx with
  | none =>
    rw [hcell] at h
    exact ⟨(Except.ok.inj h).symm, rfl⟩
  | some value =>
    rw [hcell] at h
    rw [Option.bind_some, parseUInt64_eq_ok db h]
    exact ⟨rfl, rfl⟩

/-- A mandatory number is the column's value. -/
theorem parseUInt64_cell (hcasts : db.Casts) {idx : Option ℕ} {name : Bytes} {v : UInt64}
    (h : parseUInt64 db (cell row idx) name = .ok v) : columnValue db row idx = some v := by
  have hcast := parseUInt64_eq_ok db h
  rw [columnValue, presentCell]
  cases hcell : cell row idx with
  | null =>
    rw [hcell, hcasts.ubigintNull] at hcast
    cases hcast
  | _ =>
    rw [hcell] at hcast
    simp only [Value.isNull, Bool.false_eq_true, if_false, Option.bind_some, hcast]
    rfl

/-- The numbers of a metadata row, from the columns of its input row. -/
theorem sinkRow_columns (hcasts : db.Casts) {data : PacketRowData}
    (h : sinkRow db cfg row = .ok data) :
    columnValue db row cfg.idxOrigLen = some data.origLen ∧
      data.packetBytes = payloadText db cfg row ∧
      data.interfaceId = (columnValue db row cfg.idxInterfaceId).getD 0 ∧
      data.dataLink = ((columnValue db row cfg.idxDataLink).getD 0).toUInt16 ∧
      data.capturedLength = (columnValue db row cfg.idxCapturedLength).getD
          (UInt64.ofNat (payloadText db cfg row).length) ∧
      (data.hasSrcPort = (columnValue db row cfg.idxSrcPort).isSome ∧
        data.srcPort = ((columnValue db row cfg.idxSrcPort).getD 0).toUInt32) ∧
      data.hasDstPort = (columnValue db row cfg.idxDstPort).isSome ∧
        data.dstPort = ((columnValue db row cfg.idxDstPort).getD 0).toUInt32 := by
  obtain ⟨-, horig, -, link, src, dst, hiface, hlink, hcaptured, hsrc, hdst, hdata⟩ :=
    (sinkRow_eq_ok_iff db cfg row data).mp h
  obtain ⟨hlinkValue, -⟩ := optionalUInt64_eq_ok db row hlink
  obtain ⟨hsrcValue, hsrcSome⟩ := optionalUInt64_eq_ok db row hsrc
  obtain ⟨hdstValue, hdstSome⟩ := optionalUInt64_eq_ok db row hdst
  refine ⟨parseUInt64_cell db row hcasts horig, ?_, (optionalUInt64_eq_ok db row hiface).1, ?_,
    (optionalUInt64_eq_ok db row hcaptured).1, ⟨?_, ?_⟩, ?_, ?_⟩
  · rw [hdata]
    rfl
  · rw [hdata, hlinkValue]
  · rw [hdata, hsrcSome]
  · rw [hdata, hsrcValue]
  · rw [hdata, hdstSome]
  · rw [hdata, hdstValue]

/-- The call and the index row agree with each other and with the values of the row. -/
structure KeepsValues (call : LightPacketHeader × Bytes) (indexed : IndexRow) : Prop where
  payload : handedBytes call = payloadBytes cfg row
  interfaceId : call.1.interfaceId.toNat = indexed.interfaceId.toNat ∧
    ∀ v, columnValue db row cfg.idxInterfaceId = some v → indexed.interfaceId = v
  origLen : call.1.originalLength.toNat = indexed.origLen.toNat ∧
    ∀ v, columnValue db row cfg.idxOrigLen = some v → indexed.origLen = v
  dataLink : (call.1.dataLink = indexed.dataLink ∧ indexed.linktype = indexed.dataLink) ∧
    ∀ v, columnValue db row cfg.idxDataLink = some v → indexed.dataLink.toNat = v.toNat
  capturedLength : indexed.capturedLength.toNat = (payloadBytes cfg row).length ∧
    ∀ v, columnValue db row cfg.idxCapturedLength = some v → indexed.capturedLength = v
  size : indexed.size.toNat = (payloadBytes cfg row).length
  srcPort : indexed.srcPort.map UInt32.toNat =
    (columnValue db row cfg.idxSrcPort).map UInt64.toNat
  dstPort : indexed.dstPort.map UInt32.toNat =
    (columnValue db row cfg.idxDstPort).map UInt64.toNat

/-- The database's text of the payload is the payload, every number fits the narrowest field it is
written to, a link type of zero is the default one, and a captured length is the payload's. -/
structure ValuesFit : Prop where
  payload : payloadText db cfg row = payloadBytes cfg row
  interfaceId : ∀ v, columnValue db row cfg.idxInterfaceId = some v → v.toNat < 2 ^ 32
  origLen : ∀ v, columnValue db row cfg.idxOrigLen = some v → v.toNat < 2 ^ 32
  dataLink : ∀ v, columnValue db row cfg.idxDataLink = some v →
    v.toNat < 2 ^ 16 ∧ (v ≠ 0 ∨ cfg.linktype = 0)
  capturedLength : ∀ v, columnValue db row cfg.idxCapturedLength = some v →
    v.toNat = (payloadBytes cfg row).length
  srcPort : ∀ v, columnValue db row cfg.idxSrcPort = some v → v.toNat < 2 ^ 32
  dstPort : ∀ v, columnValue db row cfg.idxDstPort = some v → v.toNat < 2 ^ 32

end Columns

section Narrowing

/-- Narrowing to 32 bits keeps exactly the values below `2 ^ 32`. -/
theorem toUInt32_toNat_iff (v : UInt64) : v.toUInt32.toNat = v.toNat ↔ v.toNat < 2 ^ 32 := by
  rw [UInt64.toNat_toUInt32]
  exact ⟨fun h => by omega, fun h => Nat.mod_eq_of_lt h⟩

/-- An optional value, zero without one, is narrowed without a loss exactly when it fits. -/
theorem getD_toUInt32_iff (value : Option UInt64) :
    (value.getD 0).toUInt32.toNat = (value.getD 0).toNat ↔
      ∀ v, value = some v → v.toNat < 2 ^ 32 := by
  rw [toUInt32_toNat_iff]
  cases value with
  | none =>
    constructor
    · intro _ v h
      cases h
    · exact fun _ => Nat.zero_lt_succ _
  | some w => exact ⟨fun h v hv => Option.some.inj hv ▸ h, fun h => h w rfl⟩

/-- A port keeps its value in the index exactly when it fits. -/
theorem port_iff (value : Option UInt64) :
    (if value.isSome then some (value.getD 0).toUInt32 else none).map UInt32.toNat =
        value.map UInt64.toNat ↔ ∀ v, value = some v → v.toNat < 2 ^ 32 := by
  rw [← getD_toUInt32_iff]
  cases value with
  | none => exact ⟨fun _ => rfl, fun _ => rfl⟩
  | some w =>
    simp only [Option.isSome_some, if_true, Option.getD_some, Option.map_some, Option.some.injEq]

/-- A link type keeps its value on its way through the default one exactly when it fits and is
not a zero with another default. -/
theorem linktype_iff (value : Option UInt64) (linktype : UInt16) :
    (∀ v, value = some v →
        (if (value.getD 0).toUInt16 ≠ 0 then (value.getD 0).toUInt16 else linktype).toNat = v.toNat) ↔
      ∀ v, value = some v → v.toNat < 2 ^ 16 ∧ (v ≠ 0 ∨ linktype = 0) := by
  refine forall_congr' fun v => imp_congr_right ?_
  rintro rfl
  have hnarrow : v.toUInt16.toNat = v.toNat % 2 ^ 16 := UInt64.toNat_toUInt16 v
  have hzero : v.toUInt16 = 0 ↔ v.toNat % 2 ^ 16 = 0 := by
    rw [← UInt16.toNat_inj, hnarrow]
    rfl
  have hv : v = 0 ↔ v.toNat = 0 := by
    rw [← UInt64.toNat_inj]
    rfl
  have hdefault : linktype = 0 ↔ linktype.toNat = 0 := by
    rw [← UInt16.toNat_inj]
    rfl
  have hbound := linktype.toNat_lt
  rw [Option.getD_some, ne_eq v 0, hv, hdefault]
  by_cases hkept : v.toUInt16 = 0
  · have hmod := hzero.mp hkept
    rw [if_neg (not_not.mpr hkept)]
    omega
  · have hmod := mt hzero.mpr hkept
    rw [if_pos hkept, hnarrow]
    omega

/-- A captured length is kept, and is the payload's, exactly when a given one is the payload's. -/
theorem captured_iff (value : Option UInt64) {size : UInt64} {length : ℕ}
    (hsize : size.toNat = length) :
    ((if value.getD (UInt64.ofNat length) ≠ 0 then value.getD (UInt64.ofNat length)
          else size).toNat = length ∧
        ∀ v, value = some v → (if value.getD (UInt64.ofNat length) ≠ 0 then
          value.getD (UInt64.ofNat length) else size) = v) ↔
      ∀ v, value = some v → v.toNat = length := by
  have hlength : UInt64.ofNat length = size := by
    rw [← hsize, UInt64.ofNat_toNat]
  rw [hlength]
  cases value with
  | none =>
    rw [Option.getD_none, ite_self]
    constructor
    · intro _ v h
      cases h
    · refine fun _ => ⟨hsize, ?_⟩
      intro v h
      cases h
  | some w =>
    rw [Option.getD_some]
    constructor
    · rintro ⟨hkept, hvalue⟩ v hv
      rw [hvalue v hv] at hkept
      exact hkept
    · intro h
      have hw : w = size := UInt64.toNat_inj.mp ((h w rfl).trans hsize.symm)
      rw [hw, ite_self]
      exact ⟨hsize, fun v hv => Option.some.inj (hw ▸ hv)⟩

end Narrowing

/-- COPY keeps the values of an accepted row in the call and in the index exactly when they fit. A
text of the database has fewer than `2 ^ 32` bytes, and the size of the row's location is the one
in its header. -/
theorem copy_keepsValues_iff {db : Database} (hcasts : db.Casts) {cfg : PqcapCopyBindData}
    {row : Row} {data : PacketRowData} (hrow : sinkRow db cfg row = .ok data)
    (htext : (payloadText db cfg row).length < 2 ^ 32) (i : ℕ) {loc : PacketLocation}
    (hsize : loc.size.toNat = (packetHeader cfg data).capturedLength.toNat) :
    KeepsValues db cfg row (writeCall cfg data) (indexRow i data loc cfg.linktype) ↔
      ValuesFit db cfg row := by
  obtain ⟨horig, hpacket, hiface, hlink, hcaptured, ⟨hhasSrc, hsrc⟩, hhasDst, hdst⟩ :=
    sinkRow_columns db cfg row hcasts hrow
  have hhanded : handedBytes (writeCall cfg data) = payloadText db cfg row := by
    rw [handedBytes_writeCall, data.writtenBytes_eq (hpacket ▸ htext), hpacket]
  have hlength : loc.size.toNat = (payloadText db cfg row).length := by
    rw [hsize, ← hpacket]
    change (UInt32.ofNat data.packetBytes.length).toNat = _
    rw [UInt32.toNat_ofNat', Nat.mod_eq_of_lt (hpacket ▸ htext)]
  have hifaceIff : (packetHeader cfg data).interfaceId.toNat = data.interfaceId.toNat ↔
      ∀ v, columnValue db row cfg.idxInterfaceId = some v → v.toNat < 2 ^ 32 := by
    change data.interfaceId.toUInt32.toNat = _ ↔ _
    rw [hiface]
    exact getD_toUInt32_iff _
  have horigIff : (packetHeader cfg data).originalLength.toNat = data.origLen.toNat ↔
      ∀ v, columnValue db row cfg.idxOrigLen = some v → v.toNat < 2 ^ 32 := by
    rw [horig]
    exact getD_toUInt32_iff (some data.origLen)
  have hlinkIff : (∀ v, columnValue db row cfg.idxDataLink = some v →
      (rowLinktype data cfg.linktype).toNat = v.toNat) ↔
        ∀ v, columnValue db row cfg.idxDataLink = some v →
          v.toNat < 2 ^ 16 ∧ (v ≠ 0 ∨ cfg.linktype = 0) := by
    rw [rowLinktype, hlink]
    exact linktype_iff _ cfg.linktype
  have hsrcIff := port_iff (columnValue db row cfg.idxSrcPort)
  have hdstIff := port_iff (columnValue db row cfg.idxDstPort)
  rw [← hhasSrc, ← hsrc] at hsrcIff
  rw [← hhasDst, ← hdst] at hdstIff
  have hcapturedIff := captured_iff (columnValue db row cfg.idxCapturedLength) hlength
  rw [← hcaptured] at hcapturedIff
  constructor
  · intro h
    have hkept : payloadText db cfg row = payloadBytes cfg row := hhanded.symm.trans h.payload
    rw [hkept] at hcapturedIff
    exact ⟨hkept, hifaceIff.mp h.interfaceId.1, horigIff.mp h.origLen.1, hlinkIff.mp h.dataLink.2,
      hcapturedIff.mp h.capturedLength, hsrcIff.mp h.srcPort, hdstIff.mp h.dstPort⟩
  · intro h
    rw [h.payload] at hhanded hlength hcapturedIff
    refine ⟨hhanded, ⟨hifaceIff.mpr h.interfaceId, ?_⟩, ⟨horigIff.mpr h.origLen, ?_⟩,
      ⟨⟨rfl, rfl⟩, hlinkIff.mpr h.dataLink⟩, hcapturedIff.mpr h.capturedLength, hlength,
      hsrcIff.mpr h.srcPort, hdstIff.mpr h.dstPort⟩
    · intro v hv
      change data.interfaceId = v
      rw [hiface, hv, Option.getD_some]
    · intro v hv
      rw [horig, Option.some.injEq] at hv
      exact hv

/-- The columns of the sample with the interface, the link type, and the source port. -/
def wideBind : PqcapCopyBindData :=
  { sampleBind with idxInterfaceId := some 3, idxDataLink := some 4, idxSrcPort := some 5 }

/-- A row with an interface, a link type, and a source port. -/
def wideRow (interfaceId : UInt64) : Row :=
  [.bigint 1, .ubigint 60, .blob (ascii "abc"), .ubigint interfaceId, .usmallint 101, .integer 5060]

/-- The metadata row of that row. -/
def wideData (interfaceId : UInt64) : PacketRowData where
  tsMicros := 1
  origLen := 60
  capturedLength := 3
  interfaceId := interfaceId
  dataLink := 101
  packetBytes := ascii "abc"
  hasSrcPort := true
  srcPort := 5060

/-- What the sink does with the row of interface seven. -/
theorem copy_keepsValues_wideRow :
    KeepsValues memoryDatabase wideBind (wideRow 7) (writeCall wideBind (wideData 7))
        (indexRow 0 (wideData 7) ⟨76, 3⟩ 1) ↔
      ValuesFit memoryDatabase wideBind (wideRow 7) :=
  copy_keepsValues_iff memoryDatabase_casts rfl (by decide) 0 rfl

/-- An interface beyond 32 bits is accepted and narrowed. -/
theorem copy_narrows_interface :
    ¬ ∀ (db : Database) (cfg : PqcapCopyBindData) (row : Row) (data : PacketRowData) (i : ℕ)
      (loc : PacketLocation), db.Casts → sinkRow db cfg row = .ok data →
        (payloadText db cfg row).length < 2 ^ 32 →
        loc.size.toNat = (packetHeader cfg data).capturedLength.toNat →
          KeepsValues db cfg row (writeCall cfg data) (indexRow i data loc cfg.linktype) := by
  intro h
  have hkept := h memoryDatabase wideBind (wideRow 0x100000000) (wideData 0x100000000) 0 ⟨76, 3⟩
    memoryDatabase_casts rfl (by decide) rfl
  exact absurd hkept.interfaceId.1 (by decide +kernel)

end PqcapReader
