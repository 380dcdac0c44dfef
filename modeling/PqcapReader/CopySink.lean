import PqcapReader.Metadata
import PqcapReader.PacketTable
import PqcapReader.Bundle
import PqcapReader.Library.Interleaving

/-!
# COPY TO (FORMAT pcapng)

`PcapngWriteBind` finds the columns by name, `PcapngWriteSink` turns each row of a chunk
into a packet header and a metadata row, and `PcapngWriteFinalize` closes the capture and
embeds the metadata. The sink holds the lock for a whole chunk, so a chunk is one atomic
call on the global state.
-/

namespace PqcapReader

open ByteCodec Effects

/-- The column types that the bind function tells apart. -/
inductive LogicalType
  | bigint
  | ubigint
  | usmallint
  | integer
  | varchar
  | blob
  | other
  deriving DecidableEq, Repr

/-- `PqcapCopyBindData`; `none` is `INVALID_INDEX`. -/
structure PqcapCopyBindData where
  mode : Bytes := ascii "pqcap"
  linktype : UInt16 := 1
  idxTimestampMicros : Option ℕ := none
  idxOrigLen : Option ℕ := none
  idxPayload : Option ℕ := none
  idxInterfaceId : Option ℕ := none
  idxDataLink : Option ℕ := none
  idxCapturedLength : Option ℕ := none
  idxComment : Option ℕ := none
  idxSrcIp : Option ℕ := none
  idxDstIp : Option ℕ := none
  idxSrcPort : Option ℕ := none
  idxDstPort : Option ℕ := none
  idxProtocols : Option ℕ := none
  deriving DecidableEq, Repr

def findColumnIdx (names : List Bytes) (needle : Bytes) : Option ℕ :=
  names.findIdx? fun name => ciEquals name needle

def parseUInt64 (db : Database) (value : Value) (name : Bytes) : Except Exception UInt64 := do
  match ← db.castUBigInt value with
  | none => .error (.ioException (ascii "Column " ++ name ++ ascii " cannot be NULL"))
  | some v => .ok v

/-- One option of the COPY statement. -/
def bindOption (db : Database) (bind : PqcapCopyBindData) (entry : Bytes × List Value) :
    Except Exception PqcapCopyBindData :=
  let option := lower entry.1
  match entry.2 with
  | [value] =>
    if option = ascii "mode" then
      match value with
      | .varchar text =>
        let mode := lower text
        if mode ≠ ascii "pcapng" ∧ mode ≠ ascii "pqcap" then
          .error (.binderException (ascii "mode must be 'pcapng' or 'pqcap'"))
        else
          .ok { bind with mode }
      | _ => .error (.binderException (ascii "mode must be VARCHAR"))
    else if option = ascii "linktype" then do
      let v ← parseUInt64 db value (ascii "linktype")
      if v > 65535 then
        .error (.binderException (ascii "linktype must fit in uint16"))
      else
        .ok { bind with linktype := v.toUInt16 }
    else
      .error (.binderException
        (ascii "Unrecognized option for COPY (FORMAT pcapng): \"" ++ option ++ ascii "\""))
  | _ =>
    .error (.binderException
      (ascii "COPY option \"" ++ option ++ ascii "\" expects exactly one value"))

/-- The column indices that `PcapngWriteBind` looks up. -/
def bindColumns (bind : PqcapCopyBindData) (names : List Bytes) : PqcapCopyBindData :=
  { bind with
    idxTimestampMicros := findColumnIdx names (ascii "timestamp_micros")
    idxOrigLen := findColumnIdx names (ascii "orig_len")
    idxPayload := findColumnIdx names (ascii "payload")
    idxInterfaceId := findColumnIdx names (ascii "interface_id")
    idxDataLink := findColumnIdx names (ascii "data_link")
    idxCapturedLength := findColumnIdx names (ascii "captured_length")
    idxComment := findColumnIdx names (ascii "comment")
    idxSrcIp := findColumnIdx names (ascii "src_ip")
    idxDstIp := findColumnIdx names (ascii "dst_ip")
    idxSrcPort := findColumnIdx names (ascii "src_port")
    idxDstPort := findColumnIdx names (ascii "dst_port")
    idxProtocols := (findColumnIdx names (ascii "protocols")).or
      (findColumnIdx names (ascii "l4_protocol")) }

def pcapngWriteBind (db : Database) (options : List (Bytes × List Value)) (names : List Bytes)
    (sqlTypes : List LogicalType) : Except Exception PqcapCopyBindData := do
  let bind ← options.foldlM (bindOption db) {}
  let bind := bindColumns bind names
  if bind.idxPayload.bind (sqlTypes[·]?) ≠ some .blob then
    .error (.binderException (ascii "COPY (FORMAT pcapng) requires a BLOB payload column"))
  else if bind.idxTimestampMicros = none then
    .error (.binderException (ascii "COPY (FORMAT pcapng) requires timestamp_micros"))
  else if bind.idxOrigLen = none then
    .error (.binderException (ascii "COPY (FORMAT pcapng) requires orig_len"))
  else
    .ok bind

section Sink

variable (db : Database) (cfg : PqcapCopyBindData)

/-- `input.GetValue(idx, r)`. -/
def cell (row : Row) (idx : Option ℕ) : Value := (idx.bind (row[·]?)).getD .null

/-- The bytes of a BLOB. -/
def Value.blobBytes : Value → Bytes
  | .blob v => v
  | _ => []

/-- The bytes of a row's payload; the column is bound as a BLOB. -/
def payloadBytes (row : Row) : Bytes := (cell row cfg.idxPayload).blobBytes

/-- The text that the sink takes for them. -/
def payloadText (row : Row) : Bytes := db.getString (cell row cfg.idxPayload)

/-- The value of an optional column, when the column exists and the cell is not NULL. -/
def presentCell (row : Row) (idx : Option ℕ) : Option Value :=
  if (cell row idx).isNull then none else some (cell row idx)

/-- An optional numeric column, with its value when absent. -/
def optionalUInt64 (row : Row) (idx : Option ℕ) (name : Bytes) (absent : UInt64) :
    Except Exception UInt64 :=
  match presentCell row idx with
  | none => .ok absent
  | some value => parseUInt64 db value name

/-- An optional text column, empty when absent. -/
def optionalString (row : Row) (idx : Option ℕ) : Bytes :=
  match presentCell row idx with
  | none => []
  | some value => db.getString value

/-- The metadata row that one iteration of `PcapngWriteSink` makes of an input row. -/
def sinkRow (row : Row) : Except Exception PacketRowData := do
  let tsMicros ← parseUInt64 db (cell row cfg.idxTimestampMicros) (ascii "timestamp_micros")
  let origLen ← parseUInt64 db (cell row cfg.idxOrigLen) (ascii "orig_len")
  let payload := cell row cfg.idxPayload
  if payload.isNull then
    .error (.ioException (ascii "payload cannot be NULL"))
  else
    let packetBytes := db.getString payload
    let interfaceId ← optionalUInt64 db row cfg.idxInterfaceId (ascii "interface_id") 0
    let dataLink ← optionalUInt64 db row cfg.idxDataLink (ascii "data_link") 0
    let capturedLength ← optionalUInt64 db row cfg.idxCapturedLength (ascii "captured_length")
      (UInt64.ofNat packetBytes.length)
    let comment := optionalString db row cfg.idxComment
    let srcIp := optionalString db row cfg.idxSrcIp
    let dstIp := optionalString db row cfg.idxDstIp
    let srcPort ← optionalUInt64 db row cfg.idxSrcPort (ascii "src_port") 0
    let dstPort ← optionalUInt64 db row cfg.idxDstPort (ascii "dst_port") 0
    let protocols := lower (optionalString db row cfg.idxProtocols)
    .ok {
      tsMicros, origLen, capturedLength, interfaceId, dataLink := dataLink.toUInt16, comment,
      packetBytes, srcIp, dstIp, hasSrcPort := (presentCell row cfg.idxSrcPort).isSome,
      hasDstPort := (presentCell row cfg.idxDstPort).isSome, srcPort := srcPort.toUInt32,
      dstPort := dstPort.toUInt32, protocols }

/-- The header that one iteration of `PcapngWriteSink` hands to `light_write_packet`. -/
def packetHeader (data : PacketRowData) : LightPacketHeader where
  interfaceId := data.interfaceId.toUInt32
  tvSec := (data.tsMicros / 1000000).toInt64
  tvNsec := (data.tsMicros % 1000000 * 1000).toInt64
  capturedLength := UInt32.ofNat data.packetBytes.length
  originalLength := data.origLen.toUInt32
  dataLink := rowLinktype data cfg.linktype
  comment := none

/-- The arguments of the call of `light_write_packet` for a metadata row. -/
def writeCall (data : PacketRowData) : LightPacketHeader × Bytes :=
  (packetHeader cfg data, data.packetBytes)

variable (light : LightPcapNg)

/-- `PqcapCopyGlobalState` behind its lock. -/
structure PqcapCopyGlobalState where
  writer : light.Writer
  rows : List PacketRowData

/-- `PcapngWriteInitializeGlobal` after the writer is opened. -/
def pcapngWriteInitializeGlobal : PqcapCopyGlobalState light := ⟨light.openWrite cfg.linktype, []⟩

/-- One iteration of `PcapngWriteSink`. -/
def sinkStep (state : PqcapCopyGlobalState light) (row : Row) :
    Except Exception (PqcapCopyGlobalState light) := do
  let data ← sinkRow db cfg row
  .ok ⟨light.writePacket state.writer (packetHeader cfg data) data.packetBytes,
    state.rows ++ [data]⟩

/-- `PcapngWriteSink`: the rows of a chunk, one after the other. -/
def pcapngWriteSink (state : PqcapCopyGlobalState light) (input : List Row) :
    Except Exception (PqcapCopyGlobalState light) :=
  input.foldlM (sinkStep db cfg light) state

/-- Everything that an accepted row yields. -/
theorem sinkRow_eq_ok_iff (row : Row) (data : PacketRowData) :
    sinkRow db cfg row = .ok data ↔
      parseUInt64 db (cell row cfg.idxTimestampMicros) (ascii "timestamp_micros") =
          .ok data.tsMicros ∧
        parseUInt64 db (cell row cfg.idxOrigLen) (ascii "orig_len") = .ok data.origLen ∧
          (cell row cfg.idxPayload).isNull = false ∧
            ∃ dataLink srcPort dstPort,
              optionalUInt64 db row cfg.idxInterfaceId (ascii "interface_id") 0 =
                  .ok data.interfaceId ∧
                optionalUInt64 db row cfg.idxDataLink (ascii "data_link") 0 = .ok dataLink ∧
                  optionalUInt64 db row cfg.idxCapturedLength (ascii "captured_length")
                      (UInt64.ofNat (db.getString (cell row cfg.idxPayload)).length) =
                    .ok data.capturedLength ∧
                    optionalUInt64 db row cfg.idxSrcPort (ascii "src_port") 0 = .ok srcPort ∧
                      optionalUInt64 db row cfg.idxDstPort (ascii "dst_port") 0 = .ok dstPort ∧
                        data = {
                          data with
                          dataLink := dataLink.toUInt16
                          comment := optionalString db row cfg.idxComment
                          packetBytes := db.getString (cell row cfg.idxPayload)
                          srcIp := optionalString db row cfg.idxSrcIp
                          dstIp := optionalString db row cfg.idxDstIp
                          hasSrcPort := (presentCell row cfg.idxSrcPort).isSome
                          hasDstPort := (presentCell row cfg.idxDstPort).isSome
                          srcPort := srcPort.toUInt32
                          dstPort := dstPort.toUInt32
                          protocols := lower (optionalString db row cfg.idxProtocols) } := by
  rw [sinkRow]
  simp only [except_bind_eq_ok]
  constructor
  · rintro ⟨ts, hts, orig, horig, h⟩
    split at h
    · contradiction
    · rename_i hpayload
      simp only [except_bind_eq_ok] at h
      obtain ⟨iface, hiface, link, hlink, captured, hcaptured, src, hsrc, dst, hdst, hdata⟩ := h
      simp only [Except.ok.injEq] at hdata
      subst hdata
      exact ⟨hts, horig, by simpa using hpayload, link, src, dst, hiface, hlink, hcaptured, hsrc,
        hdst, rfl⟩
  · rintro ⟨hts, horig, hpayload, link, src, dst, hiface, hlink, hcaptured, hsrc, hdst, hdata⟩
    refine ⟨_, hts, _, horig, ?_⟩
    rw [if_neg (by simp [hpayload])]
    simp only [except_bind_eq_ok]
    refine ⟨_, hiface, _, hlink, _, hcaptured, _, hsrc, _, hdst, ?_⟩
    rw [hdata]

/-- The packet of a metadata row is the database's text of the payload of the row it was made
of. -/
theorem sinkRow_packetBytes {row : Row} {data : PacketRowData} (h : sinkRow db cfg row = .ok data) :
    data.packetBytes = db.getString (cell row cfg.idxPayload) := by
  obtain ⟨-, -, -, dataLink, srcPort, dstPort, -, -, -, -, -, hdata⟩ :=
    (sinkRow_eq_ok_iff db cfg row data).mp h
  rw [hdata]

/-- The writer after the packets of the metadata rows. -/
def writeRows (writer : light.Writer) (rows : List PacketRowData) : light.Writer :=
  rows.foldl (fun writer data =>
    light.writePacket writer (packetHeader cfg data) data.packetBytes) writer

/-- Rows that are sunk one after the other yield one metadata row and one write each. -/
theorem sinkSteps_eq_ok_iff (input : List Row) (state last : PqcapCopyGlobalState light) :
    input.foldlM (sinkStep db cfg light) state = .ok last ↔
      ∃ found, List.Forall₂ (fun row data => sinkRow db cfg row = .ok data) input found ∧
        last = ⟨writeRows cfg light state.writer found, state.rows ++ found⟩ := by
  induction input generalizing state with
  | nil =>
    simp only [List.foldlM_nil, List.forall₂_nil_left_iff, exists_eq_left, writeRows,
      List.foldl_nil, List.append_nil]
    exact ⟨fun h => (Except.ok.inj h).symm, fun h => congrArg _ h.symm⟩
  | cons row input ih =>
    rw [List.foldlM_cons]
    simp only [except_bind_eq_ok, sinkStep, ih, List.forall₂_cons_left_iff]
    constructor
    · rintro ⟨next, ⟨data, hdata, hnext⟩, found, hfound, hlast⟩
      cases hnext
      refine ⟨data :: found, ⟨data, found, hdata, hfound, rfl⟩, hlast.trans ?_⟩
      rw [List.append_assoc]
      rfl
    · rintro ⟨_, ⟨data, found, hdata, hfound, rfl⟩, hlast⟩
      refine ⟨_, ⟨data, hdata, rfl⟩, found, hfound, hlast.trans ?_⟩
      rw [List.append_assoc]
      rfl

/-- How the rows are cut into chunks makes no difference. -/
theorem sinkChunks_eq (chunks : List (List Row)) (state : PqcapCopyGlobalState light) :
    chunks.foldlM (pcapngWriteSink db cfg light) state =
      chunks.flatten.foldlM (sinkStep db cfg light) state := by
  induction chunks generalizing state with
  | nil => rfl
  | cons chunk chunks ih =>
    rw [List.foldlM_cons, List.flatten_cons, List.foldlM_append]
    exact bind_congr fun next => ih next

end Sink

section Finalize

variable (faults : Schedule) (db : Database)

/-- `ResolveCapturePath`. -/
def resolveCapturePath (world : World) (outputPath : Bytes) : Bytes :=
  if (world.files outputPath).isSome then
    outputPath
  else
    let path := db.getFilePath outputPath
    let base := db.getFileName outputPath
    if (ascii "tmp_").isPrefixOf base then
      let finalPath := db.joinPath path (base.drop 4)
      if (world.files finalPath).isSome then finalPath else outputPath
    else
      outputPath

/-- `ScanPacketLocations` on a path. -/
def scanPacketLocationsAt (pcapPath : Bytes) : Action (List PacketLocation) := do
  match ← fopenRead faults pcapPath with
  | none => throw (.ioException (ascii "Failed opening output file for offset scan"))
  | some content =>
    let data ← freadAll faults content
      (.ioException (ascii "Failed reading output file for offset scan"))
    pure (scanPacketLocations data)

/-- The name of the temporary Parquet file of a capture. -/
def tempParquetPath (capturePath : Bytes) : Bytes := capturePath ++ ascii ".tmp.meta.parquet"

variable (cfg : PqcapCopyBindData) (light : LightPcapNg)

/-- `PcapngWriteFinalize`: the writer's file is complete once it is closed, and the result of
closing it is not looked at. -/
def pcapngWriteFinalize (outputPath : Bytes) (state : PqcapCopyGlobalState light)
    (address : ℕ) : Action Unit := do
  modify (·.store outputPath (light.content state.writer))
  fcloseWritten faults outputPath (light.content state.writer)
  if cfg.mode ≠ ascii "pqcap" then
    pure ()
  else
    let world ← get
    let capturePath := resolveCapturePath db world outputPath
    let locations ← scanPacketLocationsAt faults capturePath
    let tempParquet := tempParquetPath capturePath
    writeMetadataParquetViaSQL faults db tempParquet state.rows locations cfg.linktype address
    embedParquetInPqcap faults capturePath tempParquet
    remove faults tempParquet

end Finalize

end PqcapReader
