import PqcapReader.RegisteredFiles
import PqcapReader.RoundTrip
import PqcapReader.Database
import PqcapReader.Library.Clients

/-!
# read_pqcap

The macro prints the place of the embedded Parquet file into a sub-file path and hands it
to `read_parquet`. The Parquet reader belongs to the host and chooses each request from
what it has read before, so it is any client of the opened handle. It gets the result that
it would get from a file of exactly the embedded bytes.
-/

namespace PqcapReader

open ByteCodec Effects Simulation

/-- The path that the macro `read_pqcap` hands to `read_parquet`. -/
def readPqcapPath (fs : VirtualFileSystem) (path : Bytes) : Except Exception Bytes := do
  let location ← pqcapOffsetSize fs path
  pure (locatedPath location path)

section Reader

variable {Result : Type} (fs : VirtualFileSystem) (reader : Client FileRequest FileReply Result)

/-- `read_parquet` on a sub-file path: each match of the path is opened for reading, and the
host's reader reads it. -/
def readSubFiles (path : Bytes) : Except Exception (List Result) :=
  (glob path).mapM fun found => do
    let handle ← openFile found fileFlagsRead (some ⟨some fs⟩)
    let (result, _) ← reader.interact PqcapSubFileHandle.operate id handle
    pure result

/-- `SELECT * FROM read_pqcap(path)`. -/
def readPqcap (path : Bytes) : Except Exception (List Result) := do
  let subFile ← readPqcapPath fs path
  readSubFiles fs reader subFile

end Reader

/-- Each operation of the handle answers as the memory file does. -/
theorem PqcapSubFileHandle.operate_simulates (content : Bytes) :
    Simulates operate MemoryFile.answer FileRequest.Sized (Represents content)
      fun reply told => id reply = told ∧ True := by
  intro h file request hrelated hsized
  obtain ⟨⟨reply, inner⟩, next, hserve, ⟨hreply, -⟩, hnext⟩ :=
    serve_simulates content h file request hrelated hsized
  rw [serve, except_bind_eq_ok] at hserve
  obtain ⟨⟨operated, moved⟩, hoperate, hresult⟩ := hserve
  cases hresult
  exact ⟨reply, next, hoperate, ⟨hreply, trivial⟩, hnext⟩

section ReadPqcap

variable {fs : VirtualFileSystem} {path content : Bytes} {Result : Type}

/-- The macro goes on from the location that is found. -/
theorem readPqcap_of_location {location : Bytes}
    (hlocation : pqcapOffsetSize fs path = .ok location)
    (reader : Client FileRequest FileReply Result) :
    readPqcap fs reader path = readSubFiles fs reader (locatedPath location path) := by
  rw [readPqcap, readPqcapPath, hlocation]
  rfl

/-- On a handle that represents a memory file, a reader that asks the memory file only for sized
reads gets the memory file's result. -/
theorem readSubFiles_of_represents {location : Bytes} {handle : PqcapSubFileHandle}
    (hopened : openFile (locatedPath location path) fileFlagsRead (some ⟨some fs⟩) = .ok handle)
    {file : MemoryFile} (hrepresents : Represents content handle file)
    (reader : Client FileRequest FileReply Result)
    (hasks : reader.Asks MemoryFile.answer FileRequest.Sized file) :
    readSubFiles fs reader (locatedPath location path) =
      .ok [(reader.consult MemoryFile.answer file).1] := by
  obtain ⟨last, hlast, -⟩ :=
    (PqcapSubFileHandle.operate_simulates content).interact reader hasks hrepresents
  rw [readSubFiles, glob_locatedPath]
  simp only [List.mapM_cons, List.mapM_nil, hopened, hlast, bind, Except.bind, pure, Except.pure]

/-- Where a location is found in a seekable file, every reader gets from `read_pqcap` the result
that it gets from a file of exactly the located bytes. -/
theorem readPqcap_eq_consult (hfile : FitsFile content) {inner : FileHandle}
    (hopen : fs path fileFlagsRead = .ok (some inner)) (hseek : inner.canSeek = true)
    (hholds : inner.Holds content) {location : Bytes}
    (hlocation : pqcapOffsetSize fs path = .ok location) :
    ∃ offset size : ℕ, location = decimal offset ++ ascii "_" ++ decimal size ∧
      offset + size ≤ content.length ∧
        ∀ (Result : Type) (reader : Client FileRequest FileReply Result),
          reader.Asks MemoryFile.answer FileRequest.Sized ⟨slice content offset size, 0⟩ →
            readPqcap fs reader path =
              .ok [(reader.consult MemoryFile.answer ⟨slice content offset size, 0⟩).1] := by
  have hparse := hlocation
  rw [pqcapOffsetSize, hopen] at hparse
  obtain ⟨offset, size, hprinted, hinside⟩ := parsePqcapMetadataLocation_inside hholds hparse
  refine ⟨offset.toNat, size.toNat, hprinted, hinside, fun Result reader hasks => ?_⟩
  rw [readPqcap_of_location hlocation, hprinted]
  exact readSubFiles_of_represents
    (openFile_printed_eq_ok_iff.mpr ⟨rfl, rfl, inner, hopen, hseek, rfl⟩)
    ⟨⟨hholds, hinside, hfile⟩, rfl, rfl⟩ reader hasks

/-- The located path of a bundle opens the embedded file. -/
theorem openFile_bundle {capture parquet : Bytes} (hfits : FitsFile (pqcapBundle capture parquet))
    {inner : FileHandle} (hopen : fs path fileFlagsRead = .ok (some inner))
    (hseek : inner.canSeek = true) (hholds : inner.Holds (pqcapBundle capture parquet)) :
    ∃ handle, openFile (locatedPath (printedLocation capture parquet) path) fileFlagsRead
        (some ⟨some fs⟩) = .ok handle ∧
      Represents (pqcapBundle capture parquet) handle ⟨parquet, 0⟩ := by
  have hlength := pqcapBundle_length capture parquet
  have hbound : (pqcapBundle capture parquet).length < 2 ^ 63 := hfits
  have hoffset : (UInt64.ofNat (capture.length + 33)).toNat = capture.length + 33 :=
    uint64_ofNat_toNat (by omega)
  have hcount : (UInt64.ofNat parquet.length).toNat = parquet.length :=
    uint64_ofNat_toNat (by omega)
  have hinside : (UInt64.ofNat (capture.length + 33)).toNat + (UInt64.ofNat parquet.length).toNat ≤
      (pqcapBundle capture parquet).length := by omega
  have hembedded : slice (pqcapBundle capture parquet) (UInt64.ofNat (capture.length + 33)).toNat
      (UInt64.ofNat parquet.length).toNat = parquet := by
    rw [hoffset, hcount, slice_parquet]
  refine ⟨⟨inner, UInt64.ofNat (capture.length + 33), UInt64.ofNat parquet.length, 0⟩, ?_,
    ⟨hholds, hinside, hfits⟩, hembedded, rfl⟩
  rw [printedLocation, ← hoffset, ← hcount]
  exact openFile_printed_eq_ok_iff.mpr ⟨rfl, rfl, inner, hopen, hseek, by rw [hoffset, hcount]⟩

/-- On a bundle, every reader gets the result that it gets from a file of the embedded bytes. -/
theorem readPqcap_bundle {capture parquet : Bytes} (hfits : FitsFile (pqcapBundle capture parquet))
    {inner : FileHandle} (hopen : fs path fileFlagsRead = .ok (some inner))
    (hseek : inner.canSeek = true) (hholds : inner.Holds (pqcapBundle capture parquet))
    (hparquet : parquet ≠ []) (reader : Client FileRequest FileReply Result)
    (hasks : reader.Asks MemoryFile.answer FileRequest.Sized ⟨parquet, 0⟩) :
    readPqcap fs reader path = .ok [(reader.consult MemoryFile.answer ⟨parquet, 0⟩).1] := by
  have hlocation : pqcapOffsetSize fs path = .ok (printedLocation capture parquet) := by
    rw [pqcapOffsetSize, hopen]
    exact parsePqcapMetadataLocation_bundle hparquet hfits hholds _
  obtain ⟨handle, hopened, hrepresents⟩ := openFile_bundle hfits hopen hseek hholds
  rw [readPqcap_of_location hlocation]
  exact readSubFiles_of_represents hopened hrepresents reader hasks

/-- Wherever a bundle lies in a file, at any depth of windows of windows, every reader gets from
`read_pqcap` on the nested path the result that it gets from a file of the embedded bytes. -/
theorem readPqcap_nested_bundle (hfs : RegistersSubFiles fs) (hfile : FitsFile content)
    {inner : FileHandle} (hopen : fs path fileFlagsRead = .ok (some inner))
    (hseek : inner.canSeek = true) (hholds : inner.Holds content)
    {windows : List (UInt64 × UInt64)} (hnested : Nested content windows)
    {capture parquet : Bytes} (hparquet : parquet ≠ [])
    (hbundle : nestedWindow content windows = pqcapBundle capture parquet)
    (reader : Client FileRequest FileReply Result)
    (hasks : reader.Asks MemoryFile.answer FileRequest.Sized ⟨parquet, 0⟩) :
    readPqcap fs reader (nestedPath path windows) =
      .ok [(reader.consult MemoryFile.answer ⟨parquet, 0⟩).1] := by
  obtain ⟨handle, hhandle, hseeks, hserved⟩ :=
    hfs.opens_nested rfl rfl hfile hopen hseek hholds hnested
  have hfits : FitsFile (pqcapBundle capture parquet) :=
    hbundle ▸ lt_of_le_of_lt (nestedWindow_length_le windows) hfile
  rw [hbundle] at hserved
  exact readPqcap_bundle hfits hhandle hseeks hserved hparquet reader hasks

end ReadPqcap

/-- A reader that finds the last four bytes from the size. -/
def trailerReader : Client FileRequest FileReply Bytes :=
  .ask .getFileSize fun
    | .fileSize size => .ask (.readAt 4 (size.toUInt64 - 4)) fun
      | .readAt data => .stop data
      | _ => .stop []
    | _ => .stop []

example : trailerReader.consult MemoryFile.answer ⟨ascii "PAR1!", 0⟩ =
    (ascii "AR1!", ⟨ascii "PAR1!", 0⟩) := by decide +kernel

/-- The small bundle, under a path that holds both separators. -/
theorem readPqcap_eq_consult_sample :
    ∃ offset size : ℕ, ascii "36_5" = decimal offset ++ ascii "_" ++ decimal size ∧
      offset + size ≤ sampleBundle.length ∧
        ∀ (Result : Type) (reader : Client FileRequest FileReply Result),
          reader.Asks MemoryFile.answer FileRequest.Sized ⟨slice sampleBundle offset size, 0⟩ →
            readPqcap sampleFileSystem reader (ascii "a!b_c") =
              .ok [(reader.consult MemoryFile.answer ⟨slice sampleBundle offset size, 0⟩).1] := by
  have hfile : FitsFile sampleBundle := by decide +kernel
  exact readPqcap_eq_consult hfile rfl rfl (FileHandle.ofContent_holds _ hfile) (by decide +kernel)

/-- The small bundle inside a larger file. -/
def sampleArchive : Bytes := [0, 0] ++ sampleBundle ++ [9]

/-- The small bundle's window in a window of the larger file. -/
def sampleWindows : List (UInt64 × UInt64) :=
  [(1, UInt64.ofNat sampleBundle.length), (1, UInt64.ofNat (sampleBundle.length + 1))]

/-- The trailer of the Parquet file two windows down. -/
theorem readPqcap_nested_sample :
    readPqcap (registered fun _ _ => .ok (some (FileHandle.ofContent sampleArchive))) trailerReader
        (nestedPath (ascii "a!b_c") sampleWindows) =
      .ok [(trailerReader.consult MemoryFile.answer ⟨ascii "PAR1!", 0⟩).1] := by
  have hfile : FitsFile sampleArchive := by decide +kernel
  have hopen : registered (fun _ _ => .ok (some (FileHandle.ofContent sampleArchive)))
      (ascii "a!b_c") fileFlagsRead = .ok (some (FileHandle.ofContent sampleArchive)) :=
    registered_of_not_canHandleFile _ (by decide +kernel)
  have hnested : Nested sampleArchive sampleWindows :=
    ⟨by decide +kernel, by decide +kernel, trivial⟩
  have hbundle : nestedWindow sampleArchive sampleWindows =
      pqcapBundle [1, 2, 3] (ascii "PAR1!") := by decide +kernel
  exact readPqcap_nested_bundle (registered_registersSubFiles _) hfile hopen rfl
    (FileHandle.ofContent_holds _ hfile) hnested (by decide) hbundle trailerReader
    ⟨trivial, by decide +kernel, trivial⟩

section TableNames

/-- The host's functions that the replacement scan calls. -/
structure ReplacementScanHost where
  canReplace : Bytes → List Bytes → Bool
  hasGlob : Bytes → Bool
  extractBaseName : Bytes → Bytes

/-- The table function that a replacement scan puts in a table name's place. -/
structure TableFunctionRef where
  functionName : Bytes
  argument : Bytes
  aliasName : Option Bytes
  deriving DecidableEq, Repr

variable (host : ReplacementScanHost)

/-- `PqcapReaderReplacementScan`, from the full path of the table name. -/
def pqcapReaderReplacementScan (tableName : Bytes) : Option TableFunctionRef :=
  let functionName :=
    if host.canReplace tableName [ascii "pqcap", ascii "pqcapng"] then
      some (ascii "read_pqcap")
    else if host.canReplace tableName [ascii "pcap", ascii "pcapng"] then
      some (ascii "read_pqcap_packets")
    else
      none
  functionName.map fun functionName =>
    { functionName
      argument := tableName
      aliasName :=
        if host.hasGlob tableName then none else some (host.extractBaseName tableName) }

end TableNames

end PqcapReader
