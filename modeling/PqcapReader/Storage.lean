import PqcapReader.Host
import PqcapReader.Library.Effects
import Mathlib.Logic.Function.Basic

/-!
# Files and the C library's operations on them

A world holds the contents of all files. Each open, read, write, close, and query is one
numbered step, and a schedule says which steps fail; a failing write may leave a prefix
of its bytes behind. `ReadFileBytes` and `WriteFileBytes` are the extension's own
functions over these steps. The closing step of a written file can lose bytes as well,
and the source does not look at its result.
-/

namespace PqcapReader

open ByteCodec Effects

/-- What becomes of one step: a failing one reports a text, and a failing write keeps
`stored` bytes. -/
inductive Outcome
  | succeeds
  | fails (stored : ℕ) (error : Bytes)
  deriving DecidableEq, Repr

/-- Which steps fail. -/
abbrev Schedule := ℕ → Outcome

/-- No step fails. -/
def NoFaults (faults : Schedule) : Prop := ∀ step, faults step = .succeeds

/-- The contents of all files, and the number of steps so far. -/
structure World where
  files : Bytes → Option Bytes
  clock : ℕ

/-- The world with the contents of one file replaced. -/
def World.store (world : World) (path content : Bytes) : World :=
  { world with files := Function.update world.files path (some content) }

/-- Programs over files that may throw. -/
abbrev Action := Effect Exception World

section Steps

variable (faults : Schedule)

/-- One step of input or output. -/
def tick : Action Outcome := do
  let world ← get
  set { world with clock := world.clock + 1 }
  pure (faults world.clock)

/-- `fopen(path, "rb")`, with the content that is read through the result. -/
def fopenRead (path : Bytes) : Action (Option Bytes) := do
  match ← tick faults with
  | .fails _ _ => pure none
  | .succeeds =>
    let world ← get
    pure (world.files path)

/-- `fread` of a whole file; without bytes nothing is read. -/
def freadAll (content : Bytes) (failure : Exception) : Action Bytes := do
  if content.isEmpty then
    pure content
  else
    match ← tick faults with
    | .fails _ _ => throw failure
    | .succeeds => pure content

def readFileBytes (path : Bytes) : Action Bytes := do
  match ← fopenRead faults path with
  | none => throw (.ioException (ascii "Failed opening " ++ path))
  | some content => freadAll faults content (.ioException (ascii "Failed reading " ++ path))

/-- `fwrite` of all bytes into the file just truncated. -/
def fwriteAll (path bytes : Bytes) (failure : Exception) : Action Unit := do
  if bytes.isEmpty then
    pure ()
  else
    match ← tick faults with
    | .fails stored _ =>
      modify (·.store path (bytes.take stored))
      throw failure
    | .succeeds => modify (·.store path bytes)

/-- `fclose` of a written file, whose result is ignored. -/
def fcloseWritten (path bytes : Bytes) : Action Unit := do
  match ← tick faults with
  | .fails stored _ => modify (·.store path (bytes.take stored))
  | .succeeds => pure ()

def writeFileBytes (path bytes : Bytes) : Action Unit := do
  match ← tick faults with
  | .fails _ _ => throw (.ioException (ascii "Failed opening " ++ path ++ ascii " for write"))
  | .succeeds =>
    modify (·.store path [])
    fwriteAll faults path bytes (.ioException (ascii "Failed writing " ++ path))
    fcloseWritten faults path bytes

/-- `std::remove`, whose result is ignored. -/
def remove (path : Bytes) : Action Unit := do
  match ← tick faults with
  | .fails _ _ => pure ()
  | .succeeds => modify fun world => { world with files := Function.update world.files path none }

/-- A step changes no file. -/
theorem exec_tick_outcome (world : World) :
    exec (tick faults) world = (.ok (faults world.clock), ⟨world.files, world.clock + 1⟩) := rfl

end Steps

section WithoutFaults

variable {faults : Schedule} (hfaults : NoFaults faults)

include hfaults

theorem exec_tick (world : World) :
    exec (tick faults) world = (.ok .succeeds, ⟨world.files, world.clock + 1⟩) := by
  rw [exec_tick_outcome, hfaults world.clock]

theorem exec_fopenRead (path : Bytes) (world : World) :
    exec (fopenRead faults path) world =
      (.ok (world.files path), ⟨world.files, world.clock + 1⟩) := by
  rw [fopenRead, exec_bind, exec_tick hfaults]
  simp only [exec_bind, exec_get, exec_pure]

theorem exec_freadAll (content : Bytes) (failure : Exception) (world : World) :
    ∃ clock, exec (freadAll faults content failure) world = (.ok content, ⟨world.files, clock⟩) := by
  rw [freadAll, exec_ite]
  split
  · exact ⟨world.clock, rfl⟩
  · rw [exec_bind, exec_tick hfaults]
    exact ⟨world.clock + 1, rfl⟩

/-- A file that exists is read whole. -/
theorem exec_readFileBytes {path content : Bytes} {world : World}
    (hcontent : world.files path = some content) :
    ∃ clock, exec (readFileBytes faults path) world = (.ok content, ⟨world.files, clock⟩) := by
  rw [readFileBytes, exec_bind, exec_fopenRead hfaults]
  simp only [hcontent]
  exact exec_freadAll hfaults content _ _

/-- Without faults the file is replaced by the bytes, and no other file changes. -/
theorem exec_writeFileBytes (path bytes : Bytes) (world : World) :
    ∃ clock, exec (writeFileBytes faults path bytes) world =
      (.ok (), ⟨Function.update world.files path (some bytes), clock⟩) := by
  rw [writeFileBytes, exec_bind, exec_tick hfaults]
  simp only [exec_bind, exec_modify, World.store, fwriteAll, exec_ite]
  cases bytes with
  | nil =>
    simp only [List.isEmpty_nil, if_true, exec_pure, fcloseWritten, exec_bind, exec_tick hfaults]
    exact ⟨_, rfl⟩
  | cons byte rest =>
    simp only [List.isEmpty_cons, Bool.false_eq_true, if_false, exec_bind, exec_tick hfaults,
      exec_modify, World.store, Function.update_idem, fcloseWritten, exec_pure]
    exact ⟨_, rfl⟩

theorem exec_remove (path : Bytes) (world : World) :
    exec (remove faults path) world =
      (.ok (), ⟨Function.update world.files path none, world.clock + 1⟩) := by
  rw [remove, exec_bind, exec_tick hfaults]
  rfl

end WithoutFaults

end PqcapReader
