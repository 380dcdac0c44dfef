import PqcapReader.SubFile
import PqcapReader.Footer
import PqcapReader.Bundle
import PqcapReader.Library.Effects
import PqcapReader.Library.Simulation

/-!
# A located sub-file is a file

The requests that a client can make of an open handle, answered by the handle and by a
file in memory. A handle that was opened through the printed location answers any run of
requests as the memory file does that holds the located bytes, and what it asks of the
underlying file lies inside that file.
-/

namespace PqcapReader

open ByteCodec Simulation Effects

/-- The requests of a client. -/
inductive FileRequest
  | read (nrBytes : Int64)
  | readAt (nrBytes : Int64) (location : UInt64)
  | seek (location : UInt64)
  | reset
  | seekPosition
  | getFileSize
  deriving DecidableEq, Repr

/-- What a client sees of the answer. -/
inductive FileReply
  | read (data : Bytes) (returned : Int64)
  | readAt (data : Bytes)
  | done
  | seekPosition (position : UInt64)
  | fileSize (size : Int64)
  deriving DecidableEq, Repr

/-- A request never asks for a negative number of bytes. -/
def FileRequest.Sized : FileRequest → Prop
  | .read nrBytes => 0 ≤ nrBytes.toInt
  | .readAt nrBytes _ => 0 ≤ nrBytes.toInt
  | _ => True

instance (request : FileRequest) : Decidable request.Sized := by
  unfold FileRequest.Sized
  split <;> infer_instance

namespace PqcapSubFileHandle

/-- The handle's operation for a request. -/
def operate (h : PqcapSubFileHandle) :
    FileRequest → Except Exception (FileReply × PqcapSubFileHandle)
  | .read nrBytes => do
    let (data, returned, next) ← h.read nrBytes
    pure (.read data returned, next)
  | .readAt nrBytes location => do
    let data ← h.readAt nrBytes location
    pure (.readAt data, h)
  | .seek location => .ok (.done, h.seek location)
  | .reset => .ok (.done, h.reset)
  | .seekPosition => .ok (.seekPosition h.seekPosition, h)
  | .getFileSize => .ok (.fileSize h.getFileSize, h)

/-- The read of the inner file that the handle's operation makes, if any. -/
def innerRead (h : PqcapSubFileHandle) : FileRequest → Option (UInt64 × UInt64)
  | .read nrBytes => h.innerRequest nrBytes h.seekPos
  | .readAt nrBytes location => h.innerRequest nrBytes location
  | _ => none

/-- The operation with the read of the inner file beside its answer. -/
def serve (h : PqcapSubFileHandle) (request : FileRequest) :
    Except Exception ((FileReply × Option (UInt64 × UInt64)) × PqcapSubFileHandle) := do
  let (reply, next) ← h.operate request
  pure ((reply, h.innerRead request), next)

end PqcapSubFileHandle

/-- An ordinary file in memory, with a cursor. -/
structure MemoryFile where
  content : Bytes
  cursor : UInt64
  deriving DecidableEq, Repr

/-- A read returns what is asked for or remains; a read at the cursor moves the cursor past it. -/
def MemoryFile.answer (file : MemoryFile) : FileRequest → FileReply × MemoryFile
  | .read nrBytes =>
    let data := slice file.content file.cursor.toNat nrBytes.toInt.toNat
    (.read data (Int64.ofNat data.length),
      { file with cursor := file.cursor + UInt64.ofNat data.length })
  | .readAt nrBytes location =>
    (.readAt (slice file.content location.toNat nrBytes.toInt.toNat), file)
  | .seek location => (.done, { file with cursor := location })
  | .reset => (.done, { file with cursor := 0 })
  | .seekPosition => (.seekPosition file.cursor, file)
  | .getFileSize => (.fileSize (Int64.ofNat file.content.length), file)

/-- The handle serves its window of the content, which the memory file holds at the same cursor. -/
structure Represents (content : Bytes) (h : PqcapSubFileHandle) (file : MemoryFile) : Prop where
  serves : h.Serves content
  window : h.window content = file.content
  cursor : h.seekPos = file.cursor

/-- The answer is the memory file's, and the inner file was read within its bounds. -/
def AnswersWithin (content : Bytes) (reply : FileReply × Option (UInt64 × UInt64))
    (answer : FileReply) : Prop :=
  reply.1 = answer ∧ ∀ request ∈ reply.2, request.2.toNat + request.1.toNat ≤ content.length

namespace PqcapSubFileHandle

/-- A read of the inner file lies inside it. -/
theorem Serves.innerRequest_inside {h : PqcapSubFileHandle} {content : Bytes}
    (hs : h.Serves content) (nrBytes : Int64) (hn : 0 ≤ nrBytes.toInt) (position : UInt64) :
    ∀ request ∈ h.innerRequest nrBytes position,
      request.2.toNat + request.1.toNat ≤ content.length := by
  intro request hrequest
  rcases hs.innerRequest_eq nrBytes hn position rfl with ⟨hnone, -⟩ | ⟨location, hsome, hinside, -⟩
  · rw [hnone] at hrequest
    contradiction
  · rw [hsome, Option.mem_some_iff] at hrequest
    rw [← hrequest]
    exact hinside

/-- The handle reports the length of its window. -/
theorem Serves.getFileSize_eq {h : PqcapSubFileHandle} {content : Bytes} (hs : h.Serves content) :
    h.getFileSize = Int64.ofNat (h.window content).length := by
  rw [hs.window_length, getFileSize]
  change _ = (UInt64.ofNat h.subSize.toNat).toInt64
  rw [UInt64.ofNat_toNat]

/-- Each operation answers as the memory file does. -/
theorem serve_simulates (content : Bytes) :
    Simulates serve MemoryFile.answer FileRequest.Sized (Represents content)
      (AnswersWithin content) := by
  rintro h file request ⟨hs, hwindow, hcursor⟩ hsized
  cases request with
  | read nrBytes =>
    refine ⟨_, _, by rw [serve, operate, read_eq hs nrBytes hsized]; rfl, ⟨?_, ?_⟩, ?_⟩
    · simp only [MemoryFile.answer, hwindow, hcursor]
    · exact hs.innerRequest_inside nrBytes hsized _
    · refine ⟨hs.advance _, hwindow, ?_⟩
      simp only [advance, MemoryFile.answer, hwindow, hcursor]
  | readAt nrBytes location =>
    refine ⟨_, _, by rw [serve, operate, readAt_eq hs nrBytes hsized]; rfl, ⟨?_, ?_⟩, ?_⟩
    · simp only [MemoryFile.answer, hwindow]
    · exact hs.innerRequest_inside nrBytes hsized _
    · exact ⟨hs, hwindow, hcursor⟩
  | seek location =>
    exact ⟨_, _, rfl, ⟨rfl, by simp [innerRead]⟩, ⟨hs.inner, hs.inside, hs.fits⟩, hwindow, rfl⟩
  | reset =>
    exact ⟨_, _, rfl, ⟨rfl, by simp [innerRead]⟩, ⟨hs.inner, hs.inside, hs.fits⟩, hwindow, rfl⟩
  | seekPosition =>
    exact ⟨_, _, rfl, ⟨congrArg _ hcursor, by simp [innerRead]⟩, hs, hwindow, hcursor⟩
  | getFileSize =>
    refine ⟨_, _, rfl, ⟨?_, by simp [innerRead]⟩, hs, hwindow, hcursor⟩
    simp only [MemoryFile.answer, hs.getFileSize_eq, hwindow]

end PqcapSubFileHandle

/-- A location that `ParsePqcapMetadataLocation` returns is a printed range inside the file. -/
theorem parsePqcapMetadataLocation_inside {handle : FileHandle} {content source location : Bytes}
    (hholds : handle.Holds content)
    (hlocation : parsePqcapMetadataLocation handle source = .ok location) :
    ∃ offset size : UInt64,
      location = decimal offset.toNat ++ ascii "_" ++ decimal size.toNat ∧
        offset.toNat + size.toNat ≤ content.length := by
  obtain ⟨-, loc, -, hinside, hprinted⟩ :=
    (parsePqcapMetadataLocation_eq_ok_iff hholds).mp hlocation
  exact ⟨loc.parquetOffset, loc.parquetLength, hprinted, hinside.2⟩

/-- The path that the `read_pqcap` macro builds from a printed location. -/
def locatedPath (location path : Bytes) : Bytes :=
  subFilePrefix ++ location ++ ascii "!" ++ path

/-- Through a printed location a seekable file opens for reading, and the handle is the file of the
located bytes: any run of requests gets the memory file's answers, leaves the memory file's
cursor, and reads the underlying file only inside its bounds. -/
theorem subFile_refines_memoryFile {fs : VirtualFileSystem} {path content location : Bytes}
    (hfile : FitsFile content)
    (hserves : ∀ flags handle, fs path flags = .ok (some handle) → handle.Holds content)
    (hlocation : pqcapOffsetSize fs path = .ok location) :
    ∃ offset size : ℕ, location = decimal offset ++ ascii "_" ++ decimal size ∧
      offset + size ≤ content.length ∧
        (∀ flags inner, flags.openForReading = true → flags.openForWriting = false →
          fs path flags = .ok (some inner) → inner.canSeek = true →
            ∃ opened, openFile (locatedPath location path) flags (some ⟨some fs⟩) = .ok opened) ∧
        ∀ flags opened, openFile (locatedPath location path) flags (some ⟨some fs⟩) = .ok opened →
          ∀ requests, (∀ request ∈ requests, request.Sized) →
            ∃ replies last, serveAll PqcapSubFileHandle.serve opened requests = .ok (replies, last) ∧
              (replies.map Prod.fst, last.seekPosition) =
                ((answerAll MemoryFile.answer ⟨slice content offset size, 0⟩ requests).1,
                  (answerAll MemoryFile.answer ⟨slice content offset size, 0⟩ requests).2.cursor) ∧
                ∀ reply ∈ replies, ∀ request ∈ reply.2,
                  request.2.toNat + request.1.toNat ≤ content.length := by
  obtain ⟨found, hfound, hrest⟩ := except_bind_eq_ok.mp hlocation
  split at hrest
  · contradiction
  · rename_i handle
    obtain ⟨offset, size, hprinted, hinside⟩ :=
      parsePqcapMetadataLocation_inside (hserves _ handle hfound) hrest
    refine ⟨offset.toNat, size.toNat, hprinted, hinside, ?_, ?_⟩
    · intro flags inner hreading hwriting hinner hseek
      rw [hprinted]
      exact ⟨_, openFile_printed_eq_ok_iff.mpr ⟨hreading, hwriting, inner, hinner, hseek, rfl⟩⟩
    intro flags opened hopened requests hsized
    rw [hprinted] at hopened
    obtain ⟨-, -, inner, hinner, -, rfl⟩ := openFile_printed_eq_ok_iff.mp hopened
    have hrepresents : Represents content ⟨inner, offset, size, 0⟩
        ⟨slice content offset.toNat size.toNat, 0⟩ :=
      ⟨⟨hserves _ inner hinner, hinside, hfile⟩, rfl, rfl⟩
    obtain ⟨replies, last, hrun, hall, hlast⟩ :=
      (PqcapSubFileHandle.serve_simulates content).run requests hsized hrepresents
    obtain ⟨hanswers, hreads⟩ := map_eq_of_forall₂ hall
    refine ⟨replies, last, hrun, ?_, hreads⟩
    rw [hanswers, PqcapSubFileHandle.seekPosition, hlast.cursor]

/-- A small bundle. -/
def sampleBundle : Bytes := pqcapBundle [1, 2, 3] (ascii "PAR1!")

/-- Every path opens the small bundle in memory. -/
def sampleFileSystem : VirtualFileSystem := fun _ _ => .ok (some (FileHandle.ofContent sampleBundle))

/-- A bundle whose file opens in memory, under a path that holds both separators. -/
theorem subFile_refines_memoryFile_sample :
    ∃ offset size : ℕ, ascii "36_5" = decimal offset ++ ascii "_" ++ decimal size ∧
      offset + size ≤ sampleBundle.length ∧
        (∀ flags inner, flags.openForReading = true → flags.openForWriting = false →
          sampleFileSystem (ascii "a!b_c") flags = .ok (some inner) → inner.canSeek = true →
            ∃ opened, openFile (locatedPath (ascii "36_5") (ascii "a!b_c")) flags
              (some ⟨some sampleFileSystem⟩) = .ok opened) ∧
        ∀ flags opened, openFile (locatedPath (ascii "36_5") (ascii "a!b_c")) flags
            (some ⟨some sampleFileSystem⟩) = .ok opened →
          ∀ requests, (∀ request ∈ requests, request.Sized) →
            ∃ replies last, serveAll PqcapSubFileHandle.serve opened requests = .ok (replies, last) ∧
              (replies.map Prod.fst, last.seekPosition) =
                ((answerAll MemoryFile.answer ⟨slice sampleBundle offset size, 0⟩ requests).1,
                  (answerAll MemoryFile.answer ⟨slice sampleBundle offset size, 0⟩
                    requests).2.cursor) ∧
                ∀ reply ∈ replies, ∀ request ∈ reply.2,
                  request.2.toNat + request.1.toNat ≤ sampleBundle.length := by
  have hfile : FitsFile sampleBundle := by decide +kernel
  have hserves : ∀ flags handle, sampleFileSystem (ascii "a!b_c") flags = .ok (some handle) →
      handle.Holds sampleBundle := by
    intro flags handle hhandle
    cases hhandle
    exact FileHandle.ofContent_holds _ hfile
  have hlocation : pqcapOffsetSize sampleFileSystem (ascii "a!b_c") = .ok (ascii "36_5") := by
    decide +kernel
  exact subFile_refines_memoryFile hfile hserves hlocation

end PqcapReader
