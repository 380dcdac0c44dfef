import PqcapReader.PacketTable

/-!
# The chunks of a scan

`ReadPqcapPacketsFunction` fills the chunk that it is handed, one row for each packet that
the reader returns, until the chunk is full or the reader reports the end. The chunks of
successive calls cut the table of all packets into pieces of the vector size.
-/

namespace PqcapReader

open ByteCodec Effects

/-- The cells of a data chunk by column and row, and its cardinality. -/
structure DataChunk where
  data : ℕ → ℕ → Value
  size : ℕ

namespace DataChunk

/-- A row of the chunk, whether or not the cardinality counts it. -/
def row (chunk : DataChunk) (index : ℕ) : Row :=
  (List.range packetColumns.length).map fun col => chunk.data col index

/-- The first `count` rows. -/
def firstRows (chunk : DataChunk) (count : ℕ) : List Row := (List.range count).map chunk.row

/-- The rows that the chunk holds. -/
def rows (chunk : DataChunk) : List Row := chunk.firstRows chunk.size

def setCardinality (chunk : DataChunk) (count : ℕ) : DataChunk := { chunk with size := count }

end DataChunk

def setRowValue (output : DataChunk) (col row : ℕ) (val : Value) : DataChunk :=
  { output with data := fun c r => if c = col ∧ r = row then val else output.data c r }

/-- `SetPayloadValue`: NULL for no bytes. -/
def setPayloadValue (output : DataChunk) (row : ℕ) (packet : Bytes) : DataChunk :=
  setRowValue output 11 row (if packet.isEmpty then .null else .blob packet)

/-- What one iteration of the loop writes into the chunk for a packet. Of its texts only the
comment may be one that the database does not take. -/
def emitRow (db : Database) (output : DataChunk) (rowCount : ℕ) (packet : LightPacket) :
    Except Exception DataChunk := do
  let header := packet.header
  let parsed := l4Fields header.dataLink packet.bytes
  let output := setRowValue output 0 rowCount (.bigint (timestampMicros header))
  let output := setRowValue output 1 rowCount (.ubigint header.interfaceId.toUInt64)
  let output := setRowValue output 2 rowCount (.usmallint header.dataLink)
  let output := setRowValue output 3 rowCount (.ubigint header.capturedLength.toUInt64)
  let output := setRowValue output 4 rowCount (.ubigint header.originalLength.toUInt64)
  let output := setRowValue output 5 rowCount (← commentValue db header)
  let output := setRowValue output 6 rowCount (varcharOrNull parsed.srcIp)
  let output := setRowValue output 7 rowCount (varcharOrNull parsed.dstIp)
  let output := setRowValue output 8 rowCount (portValue parsed.hasPorts parsed.srcPort)
  let output := setRowValue output 9 rowCount (portValue parsed.hasPorts parsed.dstPort)
  let output := setRowValue output 10 rowCount (.varchar parsed.l4Protocol)
  pure (setPayloadValue output rowCount packet.bytes)

/-- What asking a reader for its next packet does: a packet, none at the end, or an exception,
and the reader after. -/
abbrev PacketSource (Reader : Type) := Reader → Except Exception (Option LightPacket) × Reader

structure PqcapPacketsGlobalState (Reader : Type) where
  reader : Reader
  finished : Bool

section Function

variable (db : Database) {Reader : Type} (next : PacketSource Reader)

/-- One question to the reader. -/
def nextPacket : Effect Exception (PqcapPacketsGlobalState Reader) (Option LightPacket) := do
  let state ← get
  let (result, reader) := next state.reader
  set { state with reader := reader }
  fromExcept result

/-- The loop of `ReadPqcapPacketsFunction` with `room` iterations left; at the end of the
packets it sets `finished` and breaks. -/
def fillChunk : ℕ → ℕ → DataChunk →
    Effect Exception (PqcapPacketsGlobalState Reader) (ℕ × DataChunk)
  | 0, rowCount, output => pure (rowCount, output)
  | room + 1, rowCount, output => do
    match ← nextPacket next with
    | none =>
      modify fun state => { state with finished := true }
      pure (rowCount, output)
    | some packet =>
      let output ← fromExcept (emitRow db output rowCount packet)
      fillChunk room (rowCount + 1) output

/-- `ReadPqcapPacketsFunction`; `vectorSize` is `STANDARD_VECTOR_SIZE`. -/
def readPqcapPacketsFunction (vectorSize : ℕ) (output : DataChunk) :
    Effect Exception (PqcapPacketsGlobalState Reader) DataChunk := do
  let state ← get
  if state.finished then
    pure (output.setCardinality 0)
  else
    let (rowCount, output) ← fillChunk db next vectorSize 0 output
    pure (output.setCardinality rowCount)

/-- The reader after one question. -/
def ask (reader : Reader) : Reader := (next reader).2

/-- The reader returns these packets and then reports the end. -/
inductive Yields : Reader → List LightPacket → Prop
  | done {reader : Reader} (hend : (next reader).1 = .ok none) : Yields reader []
  | more {reader : Reader} {packet : LightPacket} {packets : List LightPacket}
      (hpacket : (next reader).1 = .ok (some packet)) (hrest : Yields (ask next reader) packets) :
      Yields reader (packet :: packets)

/-- The same reader with a tally of the questions put to it. -/
def counted : PacketSource (Reader × ℕ) := fun (reader, asked) =>
  let (result, reader) := next reader
  (result, reader, asked + 1)

end Function

section Rows

variable {db : Database} (output : DataChunk) (rowCount : ℕ) {packet : LightPacket}
  (hshows : packet.ShowsComment db)

include hshows

/-- The iteration writes the packet's row whole, and leaves all other rows. -/
theorem emitRow_eq_ok :
    ∃ filled, emitRow db output rowCount packet = .ok filled ∧
      filled.row rowCount = packetRow packet ∧
        ∀ index ≠ rowCount, filled.row index = output.row index := by
  have hcomment := (commentValue_eq_ok_iff packet _).mpr ⟨hshows, rfl⟩
  refine ⟨_, except_bind_eq_ok.mpr ⟨_, hcomment, rfl⟩, ?_, fun index hindex => ?_⟩
  · simp [DataChunk.row, setRowValue, setPayloadValue, packetColumns, packetRow,
      List.range_succ, payloadValue]
  · simp [DataChunk.row, setRowValue, setPayloadValue, hindex]

theorem firstRows_emitRow :
    ∃ filled, emitRow db output rowCount packet = .ok filled ∧
      filled.firstRows (rowCount + 1) = output.firstRows rowCount ++ [packetRow packet] := by
  obtain ⟨filled, hemit, hself, hothers⟩ := emitRow_eq_ok output rowCount hshows
  refine ⟨filled, hemit, ?_⟩
  rw [DataChunk.firstRows, List.range_succ, List.map_append, List.map_singleton, hself]
  congr 1
  apply List.map_congr_left
  intro index hindex
  exact hothers index (Nat.ne_of_lt (List.mem_range.mp hindex))

end Rows

section Calls

variable {db : Database} {Reader : Type} {next : PacketSource Reader} {reader : Reader}

/-- A question to the reader passes its answer on. -/
theorem exec_nextPacket (finished : Bool) :
    exec (nextPacket next) ⟨reader, finished⟩ = ((next reader).1, ⟨ask next reader, finished⟩) := rfl

/-- With room for more than the packets that are left, the loop takes them all and sets the
flag; otherwise it fills the room and the reader keeps the rest. -/
theorem exec_fillChunk {packets : List LightPacket} (hyields : Yields next reader packets)
    (hshow : ∀ packet ∈ packets, packet.ShowsComment db) (room rowCount : ℕ) (output : DataChunk) :
    ∃ filled last, exec (fillChunk db next room rowCount output) ⟨reader, false⟩ =
        (.ok (rowCount + min room packets.length, filled),
          ⟨last, decide (packets.length < room)⟩) ∧
      filled.firstRows (rowCount + min room packets.length) =
        output.firstRows rowCount ++ (packets.take room).map packetRow ∧
        last = (ask next)^[min room (packets.length + 1)] reader ∧
          (room ≤ packets.length → Yields next last (packets.drop room)) := by
  induction room generalizing rowCount output reader packets with
  | zero =>
    refine ⟨output, reader, ?_, ?_, ?_, ?_⟩
    · simp [fillChunk]
    · simp
    · simp
    · exact fun _ => hyields
  | succ room ih =>
    cases hyields with
    | done hend =>
      refine ⟨output, ask next reader, ?_, ?_, ?_, ?_⟩
      · rw [fillChunk, exec_bind, exec_nextPacket, hend]
        simp only [exec_bind, exec_modify, exec_pure, List.length_nil, Nat.min_zero, Nat.add_zero,
          Nat.zero_lt_succ, decide_true]
      · simp
      · simp
      · intro h
        exact absurd h (Nat.not_succ_le_zero room)
    | @more _ packet packets hpacket hrest =>
      obtain ⟨emitted, hemit, hfirst⟩ :=
        firstRows_emitRow output rowCount (hshow packet List.mem_cons_self)
      obtain ⟨filled, last, hrun, hrows, hlast, hleft⟩ :=
        ih hrest (fun other hother => hshow other (List.mem_cons_of_mem _ hother)) (rowCount + 1)
          emitted
      have hcount : rowCount + 1 + min room packets.length =
          rowCount + min (room + 1) (packet :: packets).length := by
        rw [List.length_cons]
        omega
      refine ⟨filled, last, ?_, ?_, ?_, ?_⟩
      · rw [fillChunk, exec_bind, exec_nextPacket, hpacket]
        simp only [hemit, exec_bind, exec_fromExcept, hrun, hcount, List.length_cons,
          Nat.add_lt_add_iff_right]
      · rw [← hcount, hrows, hfirst, List.append_assoc, List.singleton_append,
          List.take_succ_cons, List.map_cons]
      · rw [hlast, ← Function.iterate_succ_apply, List.length_cons, Nat.succ_min_succ]
      · intro h
        exact hleft (Nat.le_of_succ_le_succ h)

/-- A call before the end was seen returns the next piece of the table. -/
theorem exec_readPqcapPackets {packets : List LightPacket} (hyields : Yields next reader packets)
    (hshow : ∀ packet ∈ packets, packet.ShowsComment db) (vectorSize : ℕ) (output : DataChunk) :
    ∃ chunk last, exec (readPqcapPacketsFunction db next vectorSize output) ⟨reader, false⟩ =
        (.ok chunk, ⟨last, decide (packets.length < vectorSize)⟩) ∧
      chunk.size = min vectorSize packets.length ∧
        chunk.rows = (packets.take vectorSize).map packetRow ∧
          last = (ask next)^[min vectorSize (packets.length + 1)] reader ∧
            (vectorSize ≤ packets.length → Yields next last (packets.drop vectorSize)) := by
  obtain ⟨filled, last, hrun, hrows, hlast, hleft⟩ := exec_fillChunk hyields hshow vectorSize 0 output
  rw [Nat.zero_add] at hrun hrows
  refine ⟨filled.setCardinality (min vectorSize packets.length), last, ?_, rfl, ?_, hlast, hleft⟩
  · rw [readPqcapPacketsFunction, exec_bind, exec_get]
    simp only [Bool.false_eq_true, if_false, exec_bind_ok _ hrun, exec_pure]
  · exact hrows

/-- A call after the end was seen returns an empty chunk and asks nothing. -/
theorem exec_readPqcapPackets_finished (vectorSize : ℕ) (output : DataChunk) :
    exec (readPqcapPacketsFunction db next vectorSize output) ⟨reader, true⟩ =
      (.ok (output.setCardinality 0), ⟨reader, true⟩) := rfl

/-- After the end was seen all calls return empty chunks and ask nothing. -/
theorem exec_calls_finished (vectorSize : ℕ) (outputs : List DataChunk) :
    exec (outputs.mapM (readPqcapPacketsFunction db next vectorSize)) ⟨reader, true⟩ =
      (.ok (outputs.map fun output => output.setCardinality 0), ⟨reader, true⟩) := by
  induction outputs with
  | nil => rfl
  | cons output outputs ih =>
    rw [List.mapM_cons, exec_bind_ok _ (exec_readPqcapPackets_finished vectorSize output),
      exec_bind_ok _ ih]
    rfl

/-- The chunk holds the `i`-th piece of the table of the packets. -/
def HoldsPiece (packets : List LightPacket) (vectorSize i : ℕ) (chunk : DataChunk) : Prop :=
  chunk.size = min vectorSize (packets.length - i * vectorSize) ∧
    chunk.rows = slice (packets.map packetRow) (i * vectorSize) vectorSize

/-- Every chunk of a list holds the piece of its place. -/
def HoldPieces (packets : List LightPacket) (vectorSize : ℕ) (chunks : List DataChunk) : Prop :=
  ∀ i chunk, chunks[i]? = some chunk → HoldsPiece packets vectorSize i chunk

/-- The pieces behind a first chunk of the vector size continue the table. -/
theorem HoldsPiece.succ {packets : List LightPacket} {vectorSize i : ℕ} {chunk : DataChunk}
    (h : HoldsPiece (packets.drop vectorSize) vectorSize i chunk) :
    HoldsPiece packets vectorSize (i + 1) chunk := by
  have hstart : vectorSize + i * vectorSize = (i + 1) * vectorSize := by ring
  obtain ⟨hsize, hrows⟩ := h
  constructor
  · rw [hsize, List.length_drop, Nat.sub_sub, hstart]
  · rw [hrows, slice, slice, List.map_drop, List.drop_drop, hstart]

/-- Behind a first chunk with room for all packets only empty pieces follow. -/
theorem holdsPiece_past {packets : List LightPacket} {vectorSize : ℕ}
    (hlt : packets.length < vectorSize) (i : ℕ) (output : DataChunk) :
    HoldsPiece packets vectorSize (i + 1) (output.setCardinality 0) := by
  have hpast : packets.length ≤ (i + 1) * vectorSize :=
    hlt.le.trans (Nat.le_mul_of_pos_left vectorSize (Nat.zero_lt_succ i))
  constructor
  · rw [Nat.sub_eq_zero_of_le hpast, Nat.min_zero]
    rfl
  · rw [slice, List.drop_eq_nil_of_le (by rwa [List.length_map]), List.take_nil]
    rfl

/-- A first chunk with its piece goes in front of chunks that hold the pieces one place on. -/
theorem HoldPieces.cons {packets : List LightPacket} {vectorSize : ℕ} {first : DataChunk}
    {chunks : List DataChunk} (hfirst : HoldsPiece packets vectorSize 0 first)
    (hrest : ∀ i chunk, chunks[i]? = some chunk → HoldsPiece packets vectorSize (i + 1) chunk) :
    HoldPieces packets vectorSize (first :: chunks) := by
  intro i chunk hchunk
  cases i with
  | zero =>
    obtain rfl : first = chunk := Option.some.inj hchunk
    exact hfirst
  | succ i => exact hrest i chunk hchunk

/-- Successive calls, whatever chunks they are handed, cut the table into pieces of the vector
size, and stop asking the reader once it has reported the end. -/
theorem exec_calls {packets : List LightPacket} (hyields : Yields next reader packets)
    (hshow : ∀ packet ∈ packets, packet.ShowsComment db) (vectorSize : ℕ) (outputs : List DataChunk) :
    ∃ chunks last, exec (outputs.mapM (readPqcapPacketsFunction db next vectorSize)) ⟨reader, false⟩ =
        (.ok chunks, last) ∧ chunks.length = outputs.length ∧
      HoldPieces packets vectorSize chunks ∧
        last.reader = (ask next)^[min (outputs.length * vectorSize) (packets.length + 1)] reader := by
  induction outputs generalizing reader packets with
  | nil => exact ⟨[], _, rfl, rfl, fun i chunk h => by simp at h, by simp⟩
  | cons output outputs ih =>
    obtain ⟨chunk, middle, hcall, hsize, hrows, hmiddle, hleft⟩ :=
      exec_readPqcapPackets hyields hshow vectorSize output
    have hfirst : HoldsPiece packets vectorSize 0 chunk := by
      rw [HoldsPiece, Nat.zero_mul, slice, List.drop_zero, ← List.map_take]
      exact ⟨hsize, hrows⟩
    by_cases hfull : vectorSize ≤ packets.length
    · obtain ⟨chunks, last, hrun, hlength, hpieces, hlast⟩ := ih (hleft hfull)
        fun packet hpacket => hshow packet (List.mem_of_mem_drop hpacket)
      rw [decide_eq_false (not_lt.mpr hfull)] at hcall
      refine ⟨chunk :: chunks, last, ?_, ?_, ?_, ?_⟩
      · rw [List.mapM_cons, exec_bind_ok _ hcall, exec_bind_ok _ hrun]
        rfl
      · rw [List.length_cons, List.length_cons, hlength]
      · exact .cons hfirst fun i piece hpiece => (hpieces i piece hpiece).succ
      · have hasked : min (outputs.length * vectorSize) ((packets.drop vectorSize).length + 1) +
            min vectorSize (packets.length + 1) =
              min ((output :: outputs).length * vectorSize) (packets.length + 1) := by
          rw [List.length_drop, List.length_cons, Nat.succ_mul]
          omega
        rw [hlast, hmiddle, ← Function.iterate_add_apply, hasked]
    · have hlt := not_le.mp hfull
      rw [decide_eq_true hlt] at hcall
      refine ⟨chunk :: outputs.map fun output => output.setCardinality 0, ⟨middle, true⟩, ?_, ?_, ?_,
        ?_⟩
      · rw [List.mapM_cons, exec_bind_ok _ hcall, exec_bind_ok _ (exec_calls_finished _ _)]
        rfl
      · rw [List.length_cons, List.length_cons, List.length_map]
      · refine .cons hfirst fun i piece hpiece => ?_
        rw [List.getElem?_map, Option.map_eq_some_iff] at hpiece
        obtain ⟨given, -, rfl⟩ := hpiece
        exact holdsPiece_past hlt i given
      · have hasked : min vectorSize (packets.length + 1) =
            min ((output :: outputs).length * vectorSize) (packets.length + 1) := by
          rw [List.length_cons, Nat.succ_mul]
          omega
        rw [hmiddle, hasked]

/-- The rows of the chunks are the pieces of the table. -/
theorem HoldPieces.flatten_rows {packets : List LightPacket} {vectorSize : ℕ}
    {chunks : List DataChunk} (h : HoldPieces packets vectorSize chunks) :
    (chunks.map DataChunk.rows).flatten =
      (packets.map packetRow).take (chunks.length * vectorSize) := by
  have hpieces : ∀ i piece, (chunks.map DataChunk.rows)[i]? = some piece →
      piece = slice (packets.map packetRow) (i * vectorSize) vectorSize := by
    intro i piece hpiece
    rw [List.getElem?_map, Option.map_eq_some_iff] at hpiece
    obtain ⟨chunk, hchunk, rfl⟩ := hpiece
    exact (h i chunk hchunk).2
  rw [flatten_eq_take hpieces, List.length_map]

theorem Yields.counted {packets : List LightPacket} (hyields : Yields next reader packets)
    (asked : ℕ) : Yields (PqcapReader.counted next) (reader, asked) packets := by
  induction hyields generalizing asked with
  | done hend => exact .done hend
  | more hpacket _ ih => exact .more hpacket (ih (asked + 1))

/-- The tally goes up by one with each question. -/
theorem iterate_ask_counted (count asked : ℕ) :
    ((ask (counted next))^[count] (reader, asked)).2 = asked + count := by
  induction count generalizing reader asked with
  | zero => rfl
  | succ count ih =>
    rw [Function.iterate_succ_apply]
    change ((ask (counted next))^[count] (ask next reader, asked + 1)).2 = _
    rw [ih]
    omega

end Calls

section Readers

/-- An opened capture of either format. -/
inductive CaptureReader
  | pcapng (packets : List LightPacket)
  | classicPcap (reader : ClassicPcapReader)

/-- The branch of the loop that asks the reader of the capture's format. -/
def CaptureReader.next : PacketSource CaptureReader
  | .pcapng [] => (.ok none, .pcapng [])
  | .pcapng (packet :: packets) => (.ok (some packet), .pcapng packets)
  | .classicPcap reader =>
    let (result, reader) := reader.next
    (result, .classicPcap reader)

def readPqcapPacketsInitGlobal (light : LightPcapNg) (path : Bytes) (file : Option Bytes) :
    Except Exception (PqcapPacketsGlobalState CaptureReader) := do
  let kind ← detectCaptureFormat path file
  let content := file.getD []
  match kind with
  | .pcapng =>
    match light.packets content with
    | none =>
      .error (.ioException (ascii "read_pqcap_packets: failed to open pcapng file '" ++ path ++
        ascii "'"))
    | some packets => .ok ⟨.pcapng packets, false⟩
  | .classicPcap => do
    let reader ← ClassicPcapReader.construct path content
    pure ⟨.classicPcap reader, false⟩

/-- The pcapng library yields its packets. -/
theorem pcapng_yields (packets : List LightPacket) :
    Yields CaptureReader.next (.pcapng packets) packets := by
  induction packets with
  | nil => exact .done rfl
  | cons packet packets ih => exact .more rfl ih

/-- A classic reader that can be drained yields what it is drained of. -/
theorem classicPcap_yields {fuel : ℕ} {reader : ClassicPcapReader} {packets : List LightPacket}
    (hfuel : reader.file.length < fuel) (h : reader.drain fuel = .ok packets) :
    Yields CaptureReader.next (.classicPcap reader) packets := by
  induction fuel generalizing reader packets with
  | zero => exact absurd hfuel (Nat.not_lt_zero _)
  | succ fuel ih =>
    rw [ClassicPcapReader.drain] at h
    rcases hnext : reader.next with ⟨error | found, reader'⟩
    · simp [hnext] at h
    · have hask : (CaptureReader.next (.classicPcap reader)) = (.ok found, .classicPcap reader') := by
        rw [CaptureReader.next, hnext]
      cases found with
      | none =>
        simp only [hnext, Except.ok.injEq] at h
        rw [← h]
        exact .done (by rw [hask])
      | some packet =>
        simp only [hnext] at h
        obtain ⟨rest, hrest, hpackets⟩ := except_bind_eq_ok.mp h
        obtain ⟨-, -, hshorter⟩ := ClassicPcapReader.next_eq_some [] hnext
        rw [← Except.ok.inj hpackets]
        refine .more (by rw [hask]) ?_
        rw [ask, hask]
        exact ih (by omega) hrest

/-- The reader that the scan opens yields the packets of the capture. -/
theorem initGlobal_yields {light : LightPcapNg} {path : Bytes} {file : Option Bytes}
    {packets : List LightPacket} (h : capturePackets light path file = .ok packets) :
    ∃ reader, readPqcapPacketsInitGlobal light path file = .ok ⟨reader, false⟩ ∧
      Yields CaptureReader.next reader packets := by
  rw [capturePackets] at h
  obtain ⟨kind, hkind, h⟩ := except_bind_eq_ok.mp h
  cases kind with
  | pcapng =>
    cases hread : light.packets (file.getD []) with
    | none =>
      simp only [hread] at h
      cases h
    | some found =>
      simp only [hread, Except.ok.injEq] at h
      refine ⟨.pcapng found, ?_, h ▸ pcapng_yields found⟩
      rw [readPqcapPacketsInitGlobal, hkind]
      simp only [bind, Except.bind, hread]
  | classicPcap =>
    obtain ⟨reader, hreader, hdrain⟩ := ClassicPcapReader.packets_eq_ok h
    refine ⟨.classicPcap reader, ?_, classicPcap_yields (Nat.lt_succ_self _) hdrain⟩
    rw [readPqcapPacketsInitGlobal, hkind]
    simp only [bind, Except.bind, hreader]
    rfl

/-- The chunks of a scan hold the rows of `read_pqcap_packets`, once there are enough calls. -/
theorem readPqcapPackets_eq_chunks {db : Database} {light : LightPcapNg} {path : Bytes} {file : Option Bytes}
    {table : List Row} (h : readPqcapPackets db light path file = .ok table) {vectorSize : ℕ}
    (outputs : List DataChunk) (henough : table.length ≤ outputs.length * vectorSize) :
    ∃ reader chunks last, readPqcapPacketsInitGlobal light path file = .ok ⟨reader, false⟩ ∧
      exec (outputs.mapM (readPqcapPacketsFunction db CaptureReader.next vectorSize)) ⟨reader, false⟩ =
        (.ok chunks, last) ∧ (chunks.map DataChunk.rows).flatten = table := by
  obtain ⟨packets, hpackets, hshow, rfl⟩ := (readPqcapPackets_eq_ok_iff light path file table).mp h
  obtain ⟨reader, hreader, hyields⟩ := initGlobal_yields hpackets
  obtain ⟨chunks, last, hrun, hlength, hpieces, -⟩ := exec_calls hyields hshow vectorSize outputs
  refine ⟨reader, chunks, last, hreader, hrun, ?_⟩
  rw [hpieces.flatten_rows, hlength, List.take_of_length_le henough]

end Readers

section Scan

/-- The payload cell is NULL exactly for a packet without bytes, and the port cells exactly
where no ports were parsed. -/
def NullCells (packet : LightPacket) : Prop :=
  (packetCell (packetRow packet) (ascii "payload") = .null ↔ packet.bytes = []) ∧
    (packetCell (packetRow packet) (ascii "src_port") = .null ↔
      (l4Fields packet.header.dataLink packet.bytes).hasPorts = false) ∧
    (packetCell (packetRow packet) (ascii "dst_port") = .null ↔
      (l4Fields packet.header.dataLink packet.bytes).hasPorts = false)

theorem nullCells (packet : LightPacket) : NullCells packet := by
  have hport (hasPorts : Bool) (port : Int32) :
      portValue hasPorts port = .null ↔ hasPorts = false := by
    cases hasPorts <;> simp [portValue]
  have hpayload (bytes : Bytes) : payloadValue bytes = .null ↔ bytes = [] := by
    cases bytes <;> simp [payloadValue]
  exact ⟨hpayload _, hport _ _, hport _ _⟩

/-- When the database takes all comments as texts, then whatever chunks the calls are handed, those
they return hold one row for each packet, in order, each row made from its packet alone; all chunks
are full up to the last packet and empty behind it, and the reader is asked once for each packet
and once for the end. -/
theorem scan_returns_every_packet {db : Database} {Reader : Type} {next : PacketSource Reader}
    {reader : Reader} {packets : List LightPacket} (hyields : Yields next reader packets)
    (hshow : ∀ packet ∈ packets, packet.ShowsComment db) {vectorSize : ℕ}
    (hsize : 1 ≤ vectorSize) (outputs : List DataChunk) :
    ∃ chunks last, exec (outputs.mapM (readPqcapPacketsFunction db (counted next) vectorSize))
        ⟨(reader, 0), false⟩ = (.ok chunks, last) ∧ chunks.length = outputs.length ∧
      (chunks.map DataChunk.rows).flatten =
        (packets.map packetRow).take (outputs.length * vectorSize) ∧
        (∀ i chunk, chunks[i]? = some chunk →
          chunk.rows = slice (packets.map packetRow) (i * vectorSize) vectorSize ∧
            ((i + 1) * vectorSize ≤ packets.length → chunk.size = vectorSize) ∧
              (chunk.size = 0 ↔ packets.length ≤ i * vectorSize)) ∧
          last.reader.2 = min (outputs.length * vectorSize) (packets.length + 1) ∧
            ∀ packet ∈ packets, NullCells packet := by
  obtain ⟨chunks, last, hrun, hlength, hpieces, hlast⟩ :=
    exec_calls (hyields.counted 0) hshow vectorSize outputs
  refine ⟨chunks, last, hrun, hlength, ?_, ?_, ?_, fun packet _ => nullCells packet⟩
  · rw [hpieces.flatten_rows, hlength]
  · intro i chunk hchunk
    obtain ⟨hcount, hrows⟩ := hpieces i chunk hchunk
    refine ⟨hrows, ?_, ?_⟩
    · intro hfull
      rw [Nat.succ_mul] at hfull
      omega
    · omega
  · rw [hlast, iterate_ask_counted, Nat.zero_add]

/-- Three packets of three bytes each, with a comment. -/
def threePackets : List LightPacket :=
  List.replicate 3 ⟨⟨0, 1, 2, 3, 4, 5, some (ascii "seen")⟩, some [6, 7, 8]⟩

theorem threePackets_show : ∀ packet ∈ threePackets, packet.ShowsComment memoryDatabase := by
  intro packet hpacket
  rw [List.eq_of_mem_replicate hpacket]
  exact .inr (by decide)

/-- Four chunks with leftover cells. -/
def usedChunks : List DataChunk := List.replicate 4 ⟨fun _ _ => .varchar (ascii "used"), 9⟩

/-- Three packets in chunks of two rows: four calls, of which the last two return nothing. -/
theorem scan_returns_every_packet_sample :
    ∃ chunks last, exec (usedChunks.mapM
          (readPqcapPacketsFunction memoryDatabase (counted CaptureReader.next) 2))
        ⟨(.pcapng threePackets, 0), false⟩ = (.ok chunks, last) ∧
      chunks.length = usedChunks.length ∧
      (chunks.map DataChunk.rows).flatten =
        (threePackets.map packetRow).take (usedChunks.length * 2) ∧
        (∀ i chunk, chunks[i]? = some chunk →
          chunk.rows = slice (threePackets.map packetRow) (i * 2) 2 ∧
            ((i + 1) * 2 ≤ threePackets.length → chunk.size = 2) ∧
              (chunk.size = 0 ↔ threePackets.length ≤ i * 2)) ∧
          last.reader.2 = min (usedChunks.length * 2) (threePackets.length + 1) ∧
            ∀ packet ∈ threePackets, NullCells packet :=
  scan_returns_every_packet (pcapng_yields threePackets) threePackets_show (by decide) usedChunks

end Scan

end PqcapReader
