import PqcapReader.Library.Walk
import Mathlib.Data.List.GetD

/-!
# Checked runs

A program over an abstract access can be run plainly, or with an access that stops the
run where it leaves the data. `Safe` says that the checked run does not stop and returns
what the plain run returns. The rules follow the structure of programs, so that a proof of
safety walks through a program and states a bound only where it accesses something.
-/

namespace CheckedRun

open CursorWalk

variable {A B σ : Type}

/-- The checked run returns, and returns the plain run's result. -/
def Safe (checked : Option A) (plain : Id A) : Prop := checked = some (Id.run plain)

/-- A read of an element that exists. -/
theorem Safe.read {data : List A} {i : ℕ} (default : A) (h : i < data.length) :
    Safe data[i]? (Pure.pure (data.getD i default)) := by
  rw [Safe, List.getElem?_eq_getElem h, Id.run_pure, List.getD_eq_getElem data default h]

theorem Safe.pure (value : A) : Safe (Pure.pure value) (Pure.pure value) := rfl

/-- What follows a safe step needs to be safe for the step's plain result. -/
theorem Safe.bind {checked : Option A} {plain : Id A} {next : A → Option B} {next' : A → Id B}
    (h : Safe checked plain) (hnext : Safe (next (Id.run plain)) (next' (Id.run plain))) :
    Safe (checked >>= next) (plain >>= next') := by
  rw [Safe] at h
  rw [h]
  exact hnext

theorem Safe.ite {p : Prop} [Decidable p] {checked checked' : Option A} {plain plain' : Id A}
    (hthen : p → Safe checked plain) (helse : ¬ p → Safe checked' plain') :
    Safe (if p then checked else checked') (if p then plain else plain') := by
  by_cases h : p
  · rw [if_pos h, if_pos h]
    exact hthen h
  · rw [if_neg h, if_neg h]
    exact helse h

/-- A list is processed safely when each of its elements is. -/
theorem Safe.mapM {next : A → Option B} {next' : A → Id B} {values : List A}
    (h : ∀ value ∈ values, Safe (next value) (next' value)) :
    Safe (values.mapM next) (values.mapM next') := by
  induction values with
  | nil => exact .pure _
  | cons value rest ih =>
    rw [List.forall_mem_cons] at h
    rw [List.mapM_cons, List.mapM_cons]
    exact h.1.bind ((ih h.2).bind (.pure _))

/-- A loop is safe when its step is safe at every cursor of an invariant. -/
theorem Safe.walk {step : σ → Option (Option (List B × σ))} {step' : σ → Id (Option (List B × σ))}
    (Inv : σ → Prop) (hstep : ∀ cursor, Inv cursor → Safe (step cursor) (step' cursor))
    (hkeep : ∀ cursor out next, Inv cursor → Id.run (step' cursor) = some (out, next) → Inv next)
    (fuel : ℕ) {cursor : σ} (hinv : Inv cursor) :
    Safe (CursorWalk.walk step fuel cursor) (CursorWalk.walk step' fuel cursor) := by
  induction fuel generalizing cursor with
  | zero => exact .pure _
  | succ fuel ih =>
    refine (hstep cursor hinv).bind ?_
    cases hresult : Id.run (step' cursor) with
    | none => exact .pure _
    | some result =>
      obtain ⟨out, next⟩ := result
      exact (ih (hkeep cursor out next hinv hresult)).bind (.pure _)

end CheckedRun
