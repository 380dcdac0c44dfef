import PqcapReader.Library.Words

/-!
# What the extension is handed by its host

Exceptions with their texts, open file handles, and the virtual file system that opens
them. A handle's operations belong to the host, so they are data here; `Holds` says that
a handle serves the bytes of one file.
-/

namespace PqcapReader

open ByteCodec

/-- The exceptions that the extension and its host throw. -/
inductive Exception
  | ioException (message : Bytes)
  | invalidInputException (message : Bytes)
  | binderException (message : Bytes)
  | conversionException (message : Bytes)
  | internalException (message : Bytes)
  deriving DecidableEq, Repr

/-- `FileOpenFlags`, reduced to the two questions that the extension asks. -/
structure FileOpenFlags where
  openForReading : Bool
  openForWriting : Bool
  deriving DecidableEq, Repr

/-- `FileFlags::FILE_FLAGS_READ`. -/
def fileFlagsRead : FileOpenFlags := ⟨true, false⟩

/-- An open file of the host. `read nrBytes location` is the positional read; its result is
what the host puts into the buffer. -/
structure FileHandle where
  canSeek : Bool
  getFileSize : Int64
  read : Int64 → UInt64 → Except Exception Bytes

/-- A file system: a path opens to a handle, to nothing, or not at all. -/
abbrev VirtualFileSystem := Bytes → FileOpenFlags → Except Exception (Option FileHandle)

/-- The handle reports the size of the file and returns its bytes. -/
structure FileHandle.Holds (handle : FileHandle) (content : Bytes) : Prop where
  size : handle.getFileSize.toInt = content.length
  read : ∀ (nrBytes : Int64) (location : UInt64), 0 ≤ nrBytes.toInt →
    location.toNat + nrBytes.toInt.toNat ≤ content.length →
      handle.read nrBytes location = .ok (slice content location.toNat nrBytes.toInt.toNat)

/-- The reported size is the length also as an `idx_t`, and a signed size bounds the length. -/
theorem FileHandle.Holds.toNat_size {handle : FileHandle} {content : Bytes}
    (h : handle.Holds content) :
    handle.getFileSize.toUInt64.toNat = content.length ∧ content.length < 2 ^ 63 := by
  have hsize := h.size
  have hbound := handle.getFileSize.toInt_lt
  have hword := toNat_toUInt64 handle.getFileSize (by omega)
  omega

/-- The contract of positional reads: exactly the requested bytes, or an error where the file does
not have them. -/
structure FileHandle.Exact (handle : FileHandle) (content : Bytes) : Prop
    extends handle.Holds content where
  outside : ∀ (nrBytes : Int64) (location : UInt64), 0 ≤ nrBytes.toInt →
    content.length < location.toNat + nrBytes.toInt.toNat →
      ∃ error, handle.read nrBytes location = .error error

/-- A handle on a file in memory; a read past the end is an error. -/
def FileHandle.ofContent (content : Bytes) : FileHandle where
  canSeek := true
  getFileSize := Int64.ofNat content.length
  read nrBytes location :=
    if 0 ≤ nrBytes.toInt ∧ location.toNat + nrBytes.toInt.toNat ≤ content.length then
      .ok (slice content location.toNat nrBytes.toInt.toNat)
    else
      .error (.ioException (ascii "Could not read enough bytes from file"))

/-- The in-memory handle serves its content. -/
theorem FileHandle.ofContent_holds (content : Bytes) (h : content.length < 2 ^ 63) :
    (FileHandle.ofContent content).Holds content where
  size := by
    change (UInt64.ofNat content.length).toInt64.toInt = _
    have hlength := uint64_ofNat_toNat (n := content.length) (by omega)
    rw [toInt_toInt64 _ (by omega), hlength]
  read nrBytes location hnonneg hend := if_pos ⟨hnonneg, hend⟩

/-- The in-memory handle keeps the contract. -/
theorem FileHandle.ofContent_exact (content : Bytes) (h : content.length < 2 ^ 63) :
    (FileHandle.ofContent content).Exact content where
  toHolds := ofContent_holds content h
  outside nrBytes location _ hend := ⟨_, if_neg fun hinside => by omega⟩

end PqcapReader
