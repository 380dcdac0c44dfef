import Mathlib.Data.List.Basic
import Mathlib.Logic.Basic
import Mathlib.Tactic.Common

/-!
# Loops that move a cursor and collect outputs

A step either stops the loop or yields some outputs together with the next cursor.
`walk` is the loop itself, with a bound on its iterations and in any monad, so that one
definition serves a plain run and a run that checks its memory accesses. `Walks` is the
complete run of a plain step, ended by the step and not by the bound. A measure that
falls with every step gives the complete run and makes the bounded loop equal to it.
-/

namespace CursorWalk

variable {σ β : Type}

/-- Repeat a step from a cursor at most `fuel` times, concatenating its outputs. -/
def walk {m : Type → Type} [Monad m] (step : σ → m (Option (List β × σ))) : ℕ → σ → m (List β)
  | 0, _ => pure []
  | fuel + 1, cursor => do
    match ← step cursor with
    | none => pure []
    | some (out, next) =>
      let rest ← walk step fuel next
      pure (out ++ rest)

/-- A run from a cursor to the cursor at which the step stops, with all outputs in order. -/
inductive Walks (step : σ → Option (List β × σ)) : σ → List β → σ → Prop
  | stop {cursor : σ} : step cursor = none → Walks step cursor [] cursor
  | next {cursor next last : σ} {out outs : List β} : step cursor = some (out, next) →
      Walks step next outs last → Walks step cursor (out ++ outs) last

/-- The cursors that a run passes through. -/
inductive Reaches (step : σ → Option (List β × σ)) : σ → σ → Prop
  | here (cursor : σ) : Reaches step cursor cursor
  | next {cursor next last : σ} {out : List β} : step cursor = some (out, next) →
      Reaches step next last → Reaches step cursor last

namespace Walks

variable {step step' : σ → Option (List β × σ)}

/-- The step determines the outputs and the last cursor. -/
theorem unique {cursor last last' : σ} {outs outs' : List β} (h : Walks step cursor outs last)
    (h' : Walks step cursor outs' last') : outs = outs' ∧ last = last' := by
  induction h generalizing outs' with
  | stop hstop =>
    cases h' with
    | stop _ => exact ⟨rfl, rfl⟩
    | next hstep _ => rw [hstop] at hstep; contradiction
  | next hstep _ ih =>
    cases h' with
    | stop hstop => rw [hstop] at hstep; contradiction
    | next hstep' hrest =>
      rw [hstep] at hstep'
      simp only [Option.some.injEq, Prod.mk.injEq] at hstep'
      obtain ⟨rfl, rfl⟩ := hstep'
      obtain ⟨houts, hlast⟩ := ih hrest
      exact ⟨congrArg _ houts, hlast⟩

/-- The run ends where the step stops. -/
theorem step_last {cursor last : σ} {outs : List β} (h : Walks step cursor outs last) :
    step last = none := by
  induction h with
  | stop hstop => exact hstop
  | next _ _ ih => exact ih

/-- A step that never stops earlier first repeats the run and then continues from its end. -/
theorem extend (hagree : ∀ cursor out next, step cursor = some (out, next) →
      step' cursor = some (out, next))
    {cursor middle last : σ} {outs outs' : List β} (h : Walks step cursor outs middle)
    (h' : Walks step' middle outs' last) : Walks step' cursor (outs ++ outs') last := by
  induction h with
  | stop _ => exact h'
  | next hstep _ ih =>
    rw [List.append_assoc]
    exact .next (hagree _ _ _ hstep) (ih h')

/-- Steps that agree on the cursors of an invariant have the same runs from them. -/
theorem congr (Inv : σ → Prop)
    (hkeep : ∀ cursor out next, Inv cursor → step cursor = some (out, next) → Inv next)
    (hagree : ∀ cursor, Inv cursor → step' cursor = step cursor)
    {cursor last : σ} {outs : List β} (h : Walks step cursor outs last) (hinv : Inv cursor) :
    Walks step' cursor outs last := by
  induction h with
  | stop hstop => exact .stop ((hagree _ hinv).trans hstop)
  | next hstep _ ih => exact .next ((hagree _ hinv).trans hstep) (ih (hkeep _ _ _ hinv hstep))

/-- A run has no outputs exactly when no cursor on its way has any. -/
theorem outs_eq_nil_iff {cursor last : σ} {outs : List β} (h : Walks step cursor outs last) :
    outs = [] ↔ ∀ reached out next, Reaches step cursor reached →
      step reached = some (out, next) → out = [] := by
  induction h with
  | stop hstop =>
    refine ⟨fun _ reached out next hreach hout => ?_, fun _ => rfl⟩
    cases hreach with
    | here => rw [hstop] at hout; contradiction
    | next hstep _ => rw [hstop] at hstep; contradiction
  | next hstep _ ih =>
    rw [List.append_eq_nil_iff, ih]
    constructor
    · rintro ⟨hout, hrest⟩ reached out' next' hreach hout'
      cases hreach with
      | here =>
        rw [hstep] at hout'
        simp only [Option.some.injEq, Prod.mk.injEq] at hout'
        exact hout'.1 ▸ hout
      | next hstep' hreach =>
        rw [hstep] at hstep'
        simp only [Option.some.injEq, Prod.mk.injEq] at hstep'
        obtain ⟨-, rfl⟩ := hstep'
        exact hrest _ _ _ hreach hout'
    · intro hall
      exact ⟨hall _ _ _ (.here _) hstep,
        fun reached out' next' hreach hout' => hall _ _ _ (.next hstep hreach) hout'⟩

/-- A run of a step whose outputs are further refined into those of another step. -/
theorem flatMap {γ : Type} {coarse : σ → Option (List γ × σ)} (refine : γ → List β)
    (hstep : ∀ cursor, step cursor = (coarse cursor).map fun r => (r.1.flatMap refine, r.2))
    {cursor last : σ} {outs : List γ} (h : Walks coarse cursor outs last) :
    Walks step cursor (outs.flatMap refine) last := by
  induction h with
  | stop hstop =>
    refine .stop ?_
    rw [hstep, hstop, Option.map_none]
  | next hnext _ ih =>
    rw [List.flatMap_append]
    refine .next ?_ ih
    rw [hstep, hnext, Option.map_some]

end Walks

namespace Reaches

variable {step : σ → Option (List β × σ)}

/-- A property that every step keeps holds at every cursor that is reached. -/
theorem invariant (Inv : σ → Prop)
    (hkeep : ∀ cursor out next, Inv cursor → step cursor = some (out, next) → Inv next)
    {cursor last : σ} (h : Reaches step cursor last) (hinv : Inv cursor) : Inv last := by
  induction h with
  | here _ => exact hinv
  | next hstep _ ih => exact ih (hkeep _ _ _ hinv hstep)

/-- A step that agrees where the other one goes on reaches what the other one reaches. -/
theorem mono {step' : σ → Option (List β × σ)} (hagree : ∀ cursor out next,
      step cursor = some (out, next) → step' cursor = some (out, next))
    {cursor last : σ} (h : Reaches step cursor last) : Reaches step' cursor last := by
  induction h with
  | here _ => exact .here _
  | next hstep _ ih => exact .next (hagree _ _ _ hstep) ih

/-- Of two cursors that are reached from one, one is reached from the other. -/
theorem comparable {cursor left right : σ} (h : Reaches step cursor left)
    (h' : Reaches step cursor right) : Reaches step left right ∨ Reaches step right left := by
  induction h with
  | here _ => exact .inl h'
  | next hstep hleft ih =>
    cases h' with
    | here _ => exact .inr (.next hstep hleft)
    | next hstep' hright =>
      rw [hstep, Option.some.injEq, Prod.mk.injEq] at hstep'
      exact ih (hstep'.2 ▸ hright)

section Image

variable {τ : Type} {step' : τ → Option (List β × τ)} (image : τ → σ)

/-- A run is repeated on the images of its cursors. -/
theorem map (hsame : ∀ cursor,
      (step (image cursor)).map Prod.snd = (step' cursor).map fun result => image result.2)
    {cursor last : τ} (h : Reaches step' cursor last) :
    Reaches step (image cursor) (image last) := by
  induction h with
  | here _ => exact .here _
  | @next cursor next last out hstep _ ih =>
    have hnext := hsame cursor
    rw [hstep, Option.map_some, Option.map_eq_some_iff] at hnext
    obtain ⟨⟨out, _⟩, himage, rfl⟩ := hnext
    exact .next himage ih

/-- From the image of a cursor only images of what it reaches are reached. -/
theorem lift (hsame : ∀ cursor,
      (step (image cursor)).map Prod.snd = (step' cursor).map fun result => image result.2)
    {cursor : τ} {last : σ} (h : Reaches step (image cursor) last) :
    ∃ reached, image reached = last ∧ Reaches step' cursor reached := by
  generalize hstart : image cursor = start at h
  induction h generalizing cursor with
  | here _ => exact ⟨cursor, hstart, .here cursor⟩
  | next hstep _ ih =>
    have hnext := (hsame cursor).symm
    rw [hstart, hstep, Option.map_some, Option.map_eq_some_iff] at hnext
    obtain ⟨⟨out, next⟩, hstep', himage⟩ := hnext
    obtain ⟨reached, hreached, hrest⟩ := ih himage
    exact ⟨reached, hreached, .next hstep' hrest⟩

end Image

/-- A cursor that is reached and at which the step stops ends a run. -/
theorem walks {cursor last : σ} (h : Reaches step cursor last) (hstop : step last = none) :
    ∃ outs, Walks step cursor outs last := by
  induction h with
  | here cursor => exact ⟨[], .stop hstop⟩
  | next hstep _ ih =>
    obtain ⟨outs, hrest⟩ := ih hstop
    exact ⟨_, .next hstep hrest⟩

end Reaches

/-- The last cursor of a run is reached. -/
theorem Walks.reaches_last {step : σ → Option (List β × σ)} {cursor last : σ} {outs : List β}
    (h : Walks step cursor outs last) : Reaches step cursor last := by
  induction h with
  | stop _ => exact .here _
  | next hstep _ ih => exact .next hstep ih

section Termination

variable {step : σ → Option (List β × σ)} (Inv : σ → Prop) (measure : σ → ℕ)

/-- One iteration of the plain loop. -/
theorem walk_succ (fuel : ℕ) (cursor : σ) :
    Id.run (walk step (fuel + 1) cursor) =
      match step cursor with
      | none => []
      | some (out, next) => out ++ Id.run (walk step fuel next) := by
  cases hstep : step cursor with
  | none =>
    rw [walk]
    simp only [Id.run, bind, hstep]
    rfl
  | some result =>
    rw [walk]
    simp only [Id.run, bind, hstep]
    rfl

/-- A measure that falls with every step bounds the run, which therefore ends. -/
theorem exists_walks
    (hfall : ∀ cursor out next, Inv cursor → step cursor = some (out, next) →
      Inv next ∧ measure next < measure cursor)
    (cursor : σ) (hinv : Inv cursor) : ∃ outs last, Walks step cursor outs last := by
  induction hn : measure cursor using Nat.strongRecOn generalizing cursor with
  | ind n ih =>
    cases hstep : step cursor with
    | none => exact ⟨[], cursor, .stop hstep⟩
    | some result =>
      obtain ⟨out, next⟩ := result
      obtain ⟨hnext, hlt⟩ := hfall cursor out next hinv hstep
      obtain ⟨outs, last, hrest⟩ := ih (measure next) (hn ▸ hlt) next hnext rfl
      exact ⟨out ++ outs, last, .next hstep hrest⟩

/-- The bounded loop computes the complete run once its bound exceeds the measure. -/
theorem walk_eq_of_walks
    (hfall : ∀ cursor out next, Inv cursor → step cursor = some (out, next) →
      Inv next ∧ measure next < measure cursor)
    {cursor last : σ} {outs : List β} (hwalks : Walks step cursor outs last) (hinv : Inv cursor)
    {fuel : ℕ} (hfuel : measure cursor < fuel) : Id.run (walk step fuel cursor) = outs := by
  induction hwalks generalizing fuel with
  | stop hstop =>
    obtain ⟨fuel, rfl⟩ := Nat.exists_eq_succ_of_ne_zero (Nat.ne_of_gt (Nat.zero_lt_of_lt hfuel))
    rw [walk_succ, hstop]
  | next hstep _ ih =>
    obtain ⟨fuel, rfl⟩ := Nat.exists_eq_succ_of_ne_zero (Nat.ne_of_gt (Nat.zero_lt_of_lt hfuel))
    obtain ⟨hnext, hlt⟩ := hfall _ _ _ hinv hstep
    rw [walk_succ, hstep]
    exact congrArg _ (ih hnext (by omega))

end Termination

end CursorWalk
