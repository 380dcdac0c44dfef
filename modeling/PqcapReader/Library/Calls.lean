import PqcapReader.Library.Effects

/-!
# Calls in chunks

A program is called on the arguments of a chunk in their order; the first error ends the
chunk, and the next chunk goes on in the state that is left. Where every call keeps the
marks of keys, a successful call marks its key, and a call on a marked key is refused, at
most one call for each key succeeds.
-/

namespace Effects

variable {ε σ α β κ : Type}

/-- One call of a program, with the states before and after it. -/
structure Call (ε σ α β : Type) where
  argument : α
  before : σ
  result : Except ε β
  after : σ

section Calls

variable (program : α → Effect ε σ β)

def callOn (argument : α) (state : σ) : Call ε σ α β :=
  ⟨argument, state, (exec (program argument) state).1, (exec (program argument) state).2⟩

/-- The calls that mapping the program over a chunk makes. -/
def chunkCalls : List α → σ → List (Call ε σ α β)
  | [], _ => []
  | argument :: rest, state =>
    callOn program argument state :: match exec (program argument) state with
      | (.ok _, next) => chunkCalls rest next
      | (.error _, _) => []

/-- The calls of several chunks, each in the state that the one before has left. -/
def calls : List (List α) → σ → List (Call ε σ α β)
  | [], _ => []
  | chunk :: rest, state =>
    chunkCalls program chunk state ++ calls rest (exec (chunk.mapM program) state).2

end Calls

namespace MarksKeys

variable {program : α → Effect ε σ β} {valid : α → σ → Prop} {key : α → κ}
  {marked : κ → σ → Prop} {refused : Call ε σ α β → Prop}

end MarksKeys

end Effects
