import Mathlib.Data.List.Forall2
import Mathlib.Tactic.Common

/-!
# Programs with errors and a state

`Effect ε σ` programs read and change a state and may stop with an error; the state
reached so far is kept when they do. `exec` runs one, and the equations here evaluate a
program piece by piece, so that what a program does is computed by rewriting.
-/

namespace Effects

/-- Programs that change a state and may stop with an error. -/
abbrev Effect (ε σ : Type) := ExceptT ε (StateM σ)

variable {ε σ α β : Type}

/-- The result of a program and the state it leaves. -/
def exec (program : Effect ε σ α) (state : σ) : Except ε α × σ := program.run.run state

@[simp] theorem exec_pure (value : α) (state : σ) :
    exec (pure value : Effect ε σ α) state = (.ok value, state) := rfl

@[simp] theorem exec_throw (error : ε) (state : σ) :
    exec (throw error : Effect ε σ α) state = (.error error, state) := rfl

@[simp] theorem exec_get (state : σ) : exec (get : Effect ε σ σ) state = (.ok state, state) := rfl

@[simp] theorem exec_modify (change : σ → σ) (state : σ) :
    exec (modify change : Effect ε σ PUnit) state = (.ok ⟨⟩, change state) := rfl

/-- A program's continuation runs on its result and in the state it leaves, unless it stops. -/
theorem exec_bind (program : Effect ε σ α) (rest : α → Effect ε σ β) (state : σ) :
    exec (program >>= rest) state =
      match exec program state with
      | (.ok value, next) => exec (rest value) next
      | (.error error, next) => (.error error, next) := by
  unfold exec
  rw [ExceptT.run_bind, StateT.run_bind]
  obtain ⟨value | error, next⟩ := StateT.run (ExceptT.run program) state <;> rfl

/-- After a program that returns, its continuation runs. -/
theorem exec_bind_ok {program : Effect ε σ α} {state next : σ} {value : α}
    (rest : α → Effect ε σ β) (h : exec program state = (.ok value, next)) :
    exec (program >>= rest) state = exec (rest value) next := by
  rw [exec_bind, h]

/-- A program that stops hides its continuation. -/
theorem exec_bind_error {program : Effect ε σ α} {state next : σ} {error : ε}
    (rest : α → Effect ε σ β) (h : exec program state = (.error error, next)) :
    exec (program >>= rest) state = (.error error, next) := by
  rw [exec_bind, h]

/-- A sequence returns only when both parts do. -/
theorem exec_bind_eq_ok {program : Effect ε σ α} {rest : α → Effect ε σ β} {state last : σ}
    {result : β} (h : exec (program >>= rest) state = (.ok result, last)) :
    ∃ value next, exec program state = (.ok value, next) ∧
      exec (rest value) next = (.ok result, last) := by
  rcases hprogram : exec program state with ⟨error | value, next⟩
  · rw [exec_bind_error rest hprogram] at h
    cases h
  · exact ⟨value, next, rfl, (exec_bind_ok rest hprogram).symm.trans h⟩

@[simp] theorem exec_ite (c : Prop) [Decidable c] (left right : Effect ε σ α) (state : σ) :
    exec (if c then left else right) state = if c then exec left state else exec right state := by
  split <;> rfl

/-- A result computed without effects, as a program. -/
def fromExcept (result : Except ε α) : Effect ε σ α := fun state => (result, state)

@[simp] theorem exec_fromExcept (result : Except ε α) (state : σ) :
    exec (fromExcept result : Effect ε σ α) state = (result, state) := rfl

/-- A sequence of fallible computations succeeds exactly when both parts do. -/
theorem except_bind_eq_ok {x : Except ε α} {f : α → Except ε β} {result : β} :
    (x >>= f) = .ok result ↔ ∃ value, x = .ok value ∧ f value = .ok result := by
  cases x with
  | error error =>
    constructor
    · intro h
      contradiction
    · rintro ⟨value, h, -⟩
      contradiction
  | ok value =>
    constructor
    · exact fun h => ⟨value, rfl, h⟩
    · rintro ⟨value', h, hresult⟩
      cases h
      exact hresult

/-- Mapping a fallible function over a list succeeds exactly when it does on every element. -/
theorem except_mapM_eq_ok {f : α → Except ε β} {inputs : List α} {results : List β} :
    inputs.mapM f = .ok results ↔
      List.Forall₂ (fun input result => f input = .ok result) inputs results := by
  induction inputs generalizing results with
  | nil =>
    rw [List.forall₂_nil_left_iff, List.mapM_nil]
    exact ⟨fun h => (Except.ok.inj h).symm, fun h => congrArg _ h.symm⟩
  | cons input inputs ih =>
    rw [List.mapM_cons]
    simp only [except_bind_eq_ok, List.forall₂_cons_left_iff, ih]
    constructor
    · rintro ⟨first, hfirst, rest, hrest, h⟩
      exact ⟨first, rest, hfirst, hrest, (Except.ok.inj h).symm⟩
    · rintro ⟨first, rest, hfirst, hrest, rfl⟩
      exact ⟨first, hfirst, rest, hrest, rfl⟩

end Effects
