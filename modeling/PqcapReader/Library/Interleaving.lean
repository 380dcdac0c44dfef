import Mathlib.Data.List.Basic
import Mathlib.Logic.Function.Basic

/-!
# Atomic calls of several threads on one state

Each thread has a queue of calls. A run lets one thread after another perform its next
call on the shared state, in any order, until all queues are empty. The order of the
calls is the run's trace: each thread's calls occur in it in their order, and the final
state is the trace performed by one thread.
-/

namespace Interleaving

variable {ι α σ ε : Type} [DecidableEq ι]

/-- A complete run of the queues from a state, with its trace and its final state. -/
inductive Runs (act : σ → α → Except ε σ) : (ι → List α) → σ → List (ι × α) → σ → Prop
  | done {queues : ι → List α} {state : σ} : (∀ thread, queues thread = []) →
      Runs act queues state [] state
  | call {queues : ι → List α} {state next last : σ} {thread : ι} {argument : α} {rest : List α}
      {trace : List (ι × α)} : queues thread = argument :: rest → act state argument = .ok next →
      Runs act (Function.update queues thread rest) next trace last →
      Runs act queues state ((thread, argument) :: trace) last

namespace Runs

variable {act : σ → α → Except ε σ} {queues : ι → List α} {state last : σ}
  {trace : List (ι × α)}

/-- The arguments of the calls, in the order of the run. -/
def arguments (trace : List (ι × α)) : List α := trace.map Prod.snd

/-- A run does what its trace does sequentially. -/
theorem foldlM (h : Runs act queues state trace last) :
    (arguments trace).foldlM act state = .ok last := by
  induction h with
  | done _ => rfl
  | call _ hact _ ih =>
    rw [arguments, List.map_cons, List.foldlM_cons, hact]
    exact ih

/-- The calls of a thread occur in the trace in the thread's order, none lost or repeated. -/
theorem thread_calls (h : Runs act queues state trace last) (thread : ι) :
    arguments (trace.filter fun call => call.1 = thread) = queues thread := by
  induction h with
  | done hempty => exact (hempty thread).symm
  | @call queues _ _ _ caller argument rest trace hqueue _ _ ih =>
    by_cases hcaller : caller = thread
    · subst hcaller
      rw [Function.update_self] at ih
      rw [List.filter_cons_of_pos (by simp), hqueue]
      exact congrArg _ ih
    · rw [Function.update_of_ne (Ne.symm hcaller)] at ih
      rw [List.filter_cons_of_neg (by simpa using hcaller)]
      exact ih

end Runs

end Interleaving
