import PqcapReader.Host
import PqcapReader.Library.SqlText
import Mathlib.Tactic.NormNum

/-!
# What the extension uses of the database

Result values, their casts, the session of the temporary database that turns SQL text into
a Parquet file, and the reader of such a file are the database's own, so they are data
here. The laws that the extension relies on are stated separately: integer casts keep
values that fit and reject the others, and a session that is told to insert a value list
and to copy the table writes a Parquet file of the rows that the list denotes.
-/

namespace PqcapReader

open ByteCodec SqlText

/-- A value of a result cell. `other` stands for the types that the extension does not
produce, with the value's printed text. -/
inductive Value
  | null
  | bigint (v : Int64)
  | ubigint (v : UInt64)
  | usmallint (v : UInt16)
  | integer (v : Int32)
  | varchar (v : Bytes)
  | blob (v : Bytes)
  | other (text : Bytes)
  deriving DecidableEq, Repr

def Value.isNull : Value → Bool
  | .null => true
  | _ => false

/-- `StringUtil::Lower`: ASCII letters only. -/
def lower (s : Bytes) : Bytes := s.map fun c => if 65 ≤ c ∧ c ≤ 90 then c + 32 else c

/-- `StringUtil::CIEquals`. -/
def ciEquals (left right : Bytes) : Bool := decide (lower left = lower right)

/-- A row of the embedded index, in the column order of the metadata table. -/
structure IndexRow where
  frameNumber : UInt64
  tsNs : UInt64
  protocols : Bytes
  srcIp : Option Bytes
  srcPort : Option UInt32
  dstIp : Option Bytes
  dstPort : Option UInt32
  interfaceId : UInt64
  dataLink : UInt16
  capturedLength : UInt64
  origLen : UInt64
  comment : Option Bytes
  offset : UInt64
  size : UInt64
  linktype : UInt16
  deriving DecidableEq, Repr

/-- A number literal that fits a column of unsigned integers of the given width. -/
def fittingNumber (bits : ℕ) : Literal → Option ℕ
  | .number value => if value < 2 ^ bits then some value else none
  | _ => none

def textValue : Literal → Option Bytes
  | .text value => some value
  | _ => none

/-- A literal for a column in which NULL may stand. -/
def orNull {A : Type} (read : Literal → Option A) : Literal → Option (Option A)
  | .null => some none
  | literal => (read literal).map some

/-- The row that a tuple of literals becomes in the metadata table. -/
def IndexRow.ofTuple : List Literal → Option IndexRow
  | [frameNumber, tsNs, protocols, srcIp, srcPort, dstIp, dstPort, interfaceId, dataLink,
      capturedLength, origLen, comment, offset, size, linktype] => do
    let frameNumber ← fittingNumber 64 frameNumber
    let tsNs ← fittingNumber 64 tsNs
    let protocols ← textValue protocols
    let srcIp ← orNull textValue srcIp
    let srcPort ← orNull (fittingNumber 32) srcPort
    let dstIp ← orNull textValue dstIp
    let dstPort ← orNull (fittingNumber 32) dstPort
    let interfaceId ← fittingNumber 64 interfaceId
    let dataLink ← fittingNumber 16 dataLink
    let capturedLength ← fittingNumber 64 capturedLength
    let origLen ← fittingNumber 64 origLen
    let comment ← orNull textValue comment
    let offset ← fittingNumber 64 offset
    let size ← fittingNumber 64 size
    let linktype ← fittingNumber 16 linktype
    pure {
      frameNumber := UInt64.ofNat frameNumber, tsNs := UInt64.ofNat tsNs, protocols, srcIp,
      srcPort := srcPort.map UInt32.ofNat, dstIp, dstPort := dstPort.map UInt32.ofNat,
      interfaceId := UInt64.ofNat interfaceId, dataLink := UInt16.ofNat dataLink,
      capturedLength := UInt64.ofNat capturedLength, origLen := UInt64.ofNat origLen, comment,
      offset := UInt64.ofNat offset, size := UInt64.ofNat size,
      linktype := UInt16.ofNat linktype }
  | _ => none

/-- The literal for a text that may be absent. -/
def textOrNull : Option Bytes → Literal
  | none => .null
  | some value => .text value

/-- The literal for a number that may be absent. -/
def numberOrNull : Option UInt32 → Literal
  | none => .null
  | some value => .number value.toNat

/-- The literals of a row, in column order. -/
def IndexRow.toTuple (row : IndexRow) : List Literal :=
  [.number row.frameNumber.toNat, .number row.tsNs.toNat, .text row.protocols,
    textOrNull row.srcIp, numberOrNull row.srcPort, textOrNull row.dstIp,
    numberOrNull row.dstPort, .number row.interfaceId.toNat, .number row.dataLink.toNat,
    .number row.capturedLength.toNat, .number row.origLen.toNat, textOrNull row.comment,
    .number row.offset.toNat, .number row.size.toNat, .number row.linktype.toNat]

theorem orNull_textOrNull (value : Option Bytes) :
    orNull textValue (textOrNull value) = some value := by
  cases value with
  | none => rfl
  | some value => rfl

theorem orNull_numberOrNull (value : Option UInt32) :
    orNull (fittingNumber 32) (numberOrNull value) = some (value.map UInt32.toNat) := by
  cases value with
  | none => rfl
  | some value =>
    have hvalue := value.toNat_lt
    simp only [numberOrNull, orNull, fittingNumber, if_pos hvalue, Option.map_some]

/-- A row is the row of its own literals. -/
theorem IndexRow.ofTuple_toTuple (row : IndexRow) : IndexRow.ofTuple row.toTuple = some row := by
  have h64 (v : UInt64) : fittingNumber 64 (.number v.toNat) = some v.toNat := if_pos v.toNat_lt
  have h16 (v : UInt16) : fittingNumber 16 (.number v.toNat) = some v.toNat := if_pos v.toNat_lt
  have htext (v : Bytes) : textValue (.text v) = some v := rfl
  have hport (v : Option UInt32) : (v.map UInt32.toNat).map UInt32.ofNat = v := by
    cases v with
    | none => rfl
    | some v => simp
  simp only [IndexRow.toTuple, IndexRow.ofTuple, h64, h16, htext, orNull_textOrNull,
    orNull_numberOrNull, bind, Option.bind, hport, UInt64.ofNat_toNat, UInt16.ofNat_toNat]
  rfl

/-- The rows that the text of a value list denotes. -/
def readRows (values : Bytes) : Option (List IndexRow) :=
  (readValues values).bind fun tuples => tuples.mapM IndexRow.ofTuple

/-- The texts of a row. -/
def IndexRow.texts (row : IndexRow) : List Bytes :=
  row.protocols :: (row.srcIp.toList ++ row.dstIp.toList ++ row.comment.toList)

/-- The functions of the database that the extension calls. A cast of NULL is NULL, given as
`none`. `validText` is `Value::StringIsValid`, and `acceptsText` says which texts a literal of a
statement may hold. A session answers a statement, after the statements before it, with an error
text or with the file that the statement writes, if any. -/
structure Database where
  castUBigInt : Value → Except Exception (Option UInt64)
  castBigInt : Value → Except Exception (Option Int64)
  castUSmallInt : Value → Except Exception (Option UInt16)
  castInteger : Value → Except Exception (Option Int32)
  getString : Value → Bytes
  validText : Bytes → Bool
  acceptsText : Bytes → Bool
  errorText : Exception → Bytes
  session : List Bytes → Bytes → Except Bytes (Option (Bytes × Bytes))
  readParquet : Bytes → Option (List IndexRow)
  expandPath : Bytes → Bytes
  getFilePath : Bytes → Bytes
  getFileName : Bytes → Bytes
  joinPath : Bytes → Bytes → Bytes

/-- Integer casts keep every value that the target type holds and reject every other one,
and the text of a VARCHAR is its content. -/
structure Database.Casts (db : Database) : Prop where
  ubigintNull : db.castUBigInt .null = .ok none
  ubigintUBigInt : ∀ v, db.castUBigInt (.ubigint v) = .ok (some v)
  ubigintUSmallInt : ∀ v : UInt16,
    db.castUBigInt (.usmallint v) = .ok (some (UInt64.ofNat v.toNat))
  ubigintBigInt : ∀ v : Int64, 0 ≤ v.toInt →
    db.castUBigInt (.bigint v) = .ok (some (UInt64.ofNat v.toInt.toNat))
  ubigintNegative : ∀ v : Int64, v.toInt < 0 →
    ∃ message, db.castUBigInt (.bigint v) = .error (.conversionException message)
  ubigintInteger : ∀ v : Int32, 0 ≤ v.toInt →
    db.castUBigInt (.integer v) = .ok (some (UInt64.ofNat v.toInt.toNat))
  bigint : ∀ v, db.castBigInt (.bigint v) = .ok (some v)
  usmallint : ∀ v, db.castUSmallInt (.usmallint v) = .ok (some v)
  integer : ∀ v, db.castInteger (.integer v) = .ok (some v)
  string : ∀ v, db.getString (.varchar v) = v

/-- The name of the temporary table, made from the address of the rows. -/
def tableName (address : ℕ) : Bytes := ascii "tmp_pqcap_writer_" ++ decimal address

def loadSql : Bytes := ascii "LOAD parquet"

def createTableSql (table : Bytes) : Bytes :=
  ascii "CREATE TEMP TABLE " ++ table ++
    ascii ("(frame_number UBIGINT, ts_ns UBIGINT, protocols " ++
      "VARCHAR, src_ip VARCHAR, src_port UINTEGER, " ++
      "dst_ip VARCHAR, dst_port UINTEGER, interface_id UBIGINT, " ++
      "data_link USMALLINT, captured_length UBIGINT, orig_len UBIGINT, " ++
      "comment VARCHAR, \"offset\" UBIGINT, " ++ "\"size\" UBIGINT, linktype USMALLINT)")

def insertSql (table values : Bytes) : Bytes :=
  ascii "INSERT INTO " ++ table ++ ascii " VALUES " ++ values

def copyTableSql (table path : Bytes) : Bytes :=
  ascii "COPY " ++ table ++ ascii " TO '" ++ escape path ++ ascii "' (FORMAT parquet)"

def dropTableSql (table : Bytes) : Bytes := ascii "DROP TABLE " ++ table

/-- The database takes the texts of all rows into its statements. -/
def Database.Accepts (db : Database) (rows : List IndexRow) : Prop :=
  ∀ row ∈ rows, ∀ text ∈ row.texts, db.acceptsText text = true

/-- A literal may hold every printable text, and only what is valid as a value. A session that
loads the Parquet writer, creates the metadata table, inserts a value list of accepted texts or
nothing, and copies the table writes a nonempty Parquet file of the table's rows. A value list with
a text that is not accepted is an error. -/
structure Database.WritesParquet (db : Database) : Prop where
  printable : ∀ text, Printable text → db.acceptsText text = true
  valid : ∀ text, db.acceptsText text = true → db.validText text = true
  load : db.session [] loadSql = .ok none
  create : ∀ address, db.session [loadSql] (createTableSql (tableName address)) = .ok none
  insert : ∀ address values rows, readRows values = some rows → db.Accepts rows →
    db.session [loadSql, createTableSql (tableName address)]
      (insertSql (tableName address) values) = .ok none
  reject : ∀ address values rows, readRows values = some rows → ¬ db.Accepts rows →
    ∃ error, db.session [loadSql, createTableSql (tableName address)]
      (insertSql (tableName address) values) = .error error
  copy : ∀ address values rows path, readRows values = some rows → db.Accepts rows →
    ∃ content, content ≠ [] ∧ db.readParquet content = some rows ∧
      db.session [loadSql, createTableSql (tableName address),
          insertSql (tableName address) values] (copyTableSql (tableName address) path) =
        .ok (some (path, content))
  copyEmpty : ∀ address path,
    ∃ content, content ≠ [] ∧ db.readParquet content = some [] ∧
      db.session [loadSql, createTableSql (tableName address)]
        (copyTableSql (tableName address) path) = .ok (some (path, content))
  drop : ∀ history address file,
    db.session history (dropTableSql (tableName address)) ≠ .ok (some file)

section InMemory

/-- Integer casts by value. -/
def castUnsigned : Value → Except Exception (Option UInt64)
  | .null => .ok none
  | .ubigint v => .ok (some v)
  | .usmallint v => .ok (some (UInt64.ofNat v.toNat))
  | .bigint v =>
    if 0 ≤ v.toInt then .ok (some (UInt64.ofNat v.toInt.toNat))
    else .error (.conversionException (ascii "out of range for the destination type UINT64"))
  | .integer v =>
    if 0 ≤ v.toInt then .ok (some (UInt64.ofNat v.toInt.toNat))
    else .error (.conversionException (ascii "out of range for the destination type UINT64"))
  | _ => .error (.conversionException (ascii "could not convert to UINT64"))

/-- `Blob::ToString`: a printable byte stands for itself, unless it is a backslash or a quote, and
every other one becomes `\x` with two digits. -/
def blobText (blob : Bytes) : Bytes :=
  blob.flatMap fun c =>
    if 32 ≤ c ∧ c ≤ 126 ∧ c ≠ 0x5C ∧ c ≠ 0x27 ∧ c ≠ 0x22 then [c]
    else ascii "\\x" ++ [upperDigitByte (c.toNat / 16), upperDigitByte (c.toNat % 16)]

/-- What follows the first blank. -/
def afterBlank (text : Bytes) : Bytes := (text.dropWhile (· ≠ 0x20)).drop 1

/-- The value list of an `INSERT INTO t VALUES ...` statement. -/
def insertedValues (statement : Bytes) : Bytes :=
  afterBlank (afterBlank (statement.drop (ascii "INSERT INTO ").length))

/-- The path of a `COPY t TO '...'` statement. -/
def copiedPath (statement : Bytes) : Bytes :=
  match readLiteral ((afterBlank (statement.drop (ascii "COPY ").length)).drop 3) with
  | some (.text path, _) => path
  | _ => []

/-- The text is ASCII without NUL bytes. -/
def asciiText (text : Bytes) : Bool := text.all fun c => 0 < c && c < 128

theorem asciiText_iff {text : Bytes} : asciiText text = true ↔ ∀ c ∈ text, 0 < c ∧ c < 128 := by
  simp [asciiText]

/-- All texts of a value list are such texts. -/
def asciiValues (values : Bytes) : Bool :=
  match readRows values with
  | some rows => rows.all fun row => row.texts.all asciiText
  | none => true

/-- A database of ASCII texts whose Parquet files are a marker followed by the inserted value
list. -/
def memoryDatabase : Database where
  castUBigInt := castUnsigned
  castBigInt
    | .bigint v => .ok (some v)
    | _ => .ok none
  castUSmallInt
    | .usmallint v => .ok (some v)
    | _ => .ok none
  castInteger
    | .integer v => .ok (some v)
    | _ => .ok none
  getString
    | .varchar v => v
    | .blob v => blobText v
    | .other text => text
    | _ => []
  validText text := text.all fun c => c < 128
  acceptsText := asciiText
  errorText _ := ascii "error"
  session history statement :=
    if statement.take 5 = ascii "COPY " then
      .ok (some (copiedPath statement,
        ascii "PAR1" ++ (history.drop 2).flatMap insertedValues))
    else if statement.take 7 = ascii "INSERT " ∧ ¬ asciiValues (insertedValues statement) then
      .error (ascii "Parser Error")
    else
      .ok none
  readParquet content := if content.drop 4 = [] then some [] else readRows (content.drop 4)
  expandPath path := path
  getFilePath _ := []
  getFileName path := path
  joinPath left right := left ++ ascii "/" ++ right

theorem memoryDatabase_casts : memoryDatabase.Casts where
  ubigintNull := rfl
  ubigintUBigInt _ := rfl
  ubigintUSmallInt _ := rfl
  ubigintBigInt _ h := if_pos h
  ubigintNegative _ h := ⟨_, if_neg (not_le.mpr h)⟩
  ubigintInteger _ h := if_pos h
  bigint _ := rfl
  usmallint _ := rfl
  integer _ := rfl
  string _ := rfl

/-- A table name holds no blank, so what follows it is found behind the first one. -/
theorem afterBlank_tableName (address : ℕ) (rest : Bytes) :
    afterBlank (tableName address ++ 0x20 :: rest) = rest := by
  have hname : ∀ c ∈ tableName address, decide (c ≠ 0x20) = true := by
    have hfixed : ∀ c ∈ ascii "tmp_pqcap_writer_", decide (c ≠ 0x20) = true := by decide +kernel
    intro c hc
    rcases List.mem_append.mp hc with hc | hc
    · exact hfixed c hc
    · have hdigit := decimal_isDigit address c hc
      rw [decide_eq_true_eq]
      rintro rfl
      exact absurd hdigit (by decide)
  rw [afterBlank, List.dropWhile_append_of_pos hname, List.dropWhile_cons_of_neg (by decide)]
  rfl

/-- The path of a COPY statement is read back. -/
theorem copiedPath_copyTableSql (address : ℕ) (path : Bytes) :
    copiedPath (copyTableSql (tableName address) path) = path := by
  have hdrop : (copyTableSql (tableName address) path).drop (ascii "COPY ").length =
      tableName address ++ 0x20 :: (ascii "TO " ++ (quoted path ++ ascii " (FORMAT parquet)")) := by
    simp only [copyTableSql, List.append_assoc, List.drop_left]
    simp only [quoted, List.cons_append, List.append_assoc]
    rfl
  have hto : (ascii "TO " ++ (quoted path ++ ascii " (FORMAT parquet)")).drop 3 =
      quoted path ++ ascii " (FORMAT parquet)" := List.drop_left' (by decide +kernel)
  have hliteral := readQuoted_escape path (ascii " (FORMAT parquet)") (by decide)
  rw [copiedPath, hdrop, afterBlank_tableName, hto]
  simp only [quoted, List.cons_append, List.append_assoc, List.nil_append, readLiteral, if_true,
    hliteral, Option.map_some]

/-- The value list of an INSERT statement is read back. -/
theorem insertedValues_insertSql (address : ℕ) (values : Bytes) :
    insertedValues (insertSql (tableName address) values) = values := by
  have hdrop : (insertSql (tableName address) values).drop (ascii "INSERT INTO ").length =
      tableName address ++ 0x20 :: (ascii "VALUES " ++ values) := by
    simp only [insertSql, List.append_assoc, List.drop_left]
    rfl
  rw [insertedValues, hdrop, afterBlank_tableName]
  rfl

theorem memoryDatabase_session (history : List Bytes) (statement : Bytes) :
    memoryDatabase.session history statement =
      if statement.take 5 = ascii "COPY " then
        .ok (some (copiedPath statement,
          ascii "PAR1" ++ (history.drop 2).flatMap insertedValues))
      else if statement.take 7 = ascii "INSERT " ∧ ¬ asciiValues (insertedValues statement) then
        .error (ascii "Parser Error")
      else
        .ok none := rfl

/-- A COPY statement writes the value lists that were inserted. -/
theorem memoryDatabase_copy (history : List Bytes) (address : ℕ) (path : Bytes) :
    memoryDatabase.session history (copyTableSql (tableName address) path) =
      .ok (some (path, ascii "PAR1" ++ (history.drop 2).flatMap insertedValues)) := by
  have hkind : (copyTableSql (tableName address) path).take 5 = ascii "COPY " := by
    simp only [copyTableSql, List.append_assoc]
    exact List.take_left' rfl
  rw [memoryDatabase_session, if_pos hkind, copiedPath_copyTableSql]

/-- A Parquet file is read from behind its marker. -/
theorem memoryDatabase_readParquet (body : Bytes) :
    memoryDatabase.readParquet (ascii "PAR1" ++ body) =
      if body = [] then some [] else readRows body := by
  have hbody : (ascii "PAR1" ++ body).drop 4 = body := List.drop_left' (by decide +kernel)
  change (if (ascii "PAR1" ++ body).drop 4 = [] then some [] else
    readRows ((ascii "PAR1" ++ body).drop 4)) = _
  rw [hbody]

/-- An INSERT statement is answered by what its texts hold. -/
theorem memoryDatabase_insert (history : List Bytes) (address : ℕ) (values : Bytes) :
    memoryDatabase.session history (insertSql (tableName address) values) =
      if asciiValues values then .ok none else .error (ascii "Parser Error") := by
  have hkind : (insertSql (tableName address) values).take 7 = ascii "INSERT " := by
    simp only [insertSql, List.append_assoc]
    rw [List.take_append_of_le_length (by decide)]
    decide
  have hcopy : (insertSql (tableName address) values).take 5 ≠ ascii "COPY " := by
    intro h
    have hfirst : (insertSql (tableName address) values).take 5 = ascii "INSER" := by
      rw [show 5 = min 5 7 from rfl, ← List.take_take, hkind]
      rfl
    rw [hfirst] at h
    exact absurd h (by decide)
  rw [memoryDatabase_session, if_neg hcopy, insertedValues_insertSql]
  simp only [hkind, true_and, ite_not]

/-- The texts of the rows of a value list are accepted exactly when they are ASCII. -/
theorem asciiValues_iff {values : Bytes} {rows : List IndexRow}
    (hrows : readRows values = some rows) :
    asciiValues values = true ↔ memoryDatabase.Accepts rows := by
  simp only [asciiValues, hrows, List.all_eq_true]
  rfl

/-- The in-memory database satisfies the law of the session. -/
theorem memoryDatabase_writesParquet : memoryDatabase.WritesParquet where
  printable text htext := by
    refine asciiText_iff.mpr fun c hc => ?_
    obtain ⟨hlow, hhigh⟩ := htext c hc
    exact ⟨UInt8.lt_of_lt_of_le (by decide) hlow, UInt8.lt_of_le_of_lt hhigh (by decide)⟩
  valid text htext :=
    List.all_eq_true.mpr fun c hc => decide_eq_true (asciiText_iff.mp htext c hc).2
  load := rfl
  create _ := rfl
  insert address values rows hrows haccepts :=
    (memoryDatabase_insert _ address values).trans (if_pos ((asciiValues_iff hrows).mpr haccepts))
  reject address values rows hrows hrejects :=
    ⟨_, (memoryDatabase_insert _ address values).trans
      (if_neg (mt (asciiValues_iff hrows).mp hrejects))⟩
  copy address values rows path hrows _ := by
    refine ⟨_, ?_, ?_, memoryDatabase_copy _ address path⟩
    · exact List.cons_ne_nil _ _
    · have hvalues : values ≠ [] := by
        rintro rfl
        rw [show readRows [] = none from rfl] at hrows
        exact Option.some_ne_none rows hrows.symm
      rw [memoryDatabase_readParquet, List.drop_succ_cons, List.drop_succ_cons, List.drop_zero,
        List.flatMap_singleton, insertedValues_insertSql, if_neg hvalues, hrows]
  copyEmpty address path := ⟨_, List.cons_ne_nil _ _, rfl, memoryDatabase_copy _ address path⟩
  drop history address file := by
    change Except.ok none ≠ _
    simp

end InMemory

end PqcapReader
