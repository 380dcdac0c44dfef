import PqcapReader.Library.Threads
import Mathlib.Logic.Relation

/-!
# Rely and guarantee

A thread is proved right on its own against a relation that bounds what the others do between
its steps, and it keeps each of its own steps within another. Where each thread's steps are
within what every other thread relies on, all of them are right in every interleaving.
-/

namespace Threads

open Effects Relation

/-- What the steps of the other threads leave true. -/
def Stable {σ : Type} (rely : σ → σ → Prop) (holds : σ → Prop) : Prop :=
  ∀ state later, holds state → rely state later → holds later

namespace Stable

variable {σ : Type} {rely : σ → σ → Prop} {holds other : σ → Prop}

theorem later (h : Stable rely holds) {state last : σ} (hholds : holds state)
    (hrely : ReflTransGen rely state last) : holds last := by
  induction hrely with
  | refl => exact hholds
  | tail _ hstep ih => exact h _ _ ih hstep

theorem const (p : Prop) : Stable rely fun _ => p := fun _ _ hp _ => hp

theorem and (h : Stable rely holds) (hother : Stable rely other) :
    Stable rely fun state => holds state ∧ other state :=
  fun _ _ hboth hrely => ⟨h _ _ hboth.1 hrely, hother _ _ hboth.2 hrely⟩

theorem or (h : Stable rely holds) (hother : Stable rely other) :
    Stable rely fun state => holds state ∨ other state :=
  fun _ _ hone hrely => hone.imp (h _ _ · hrely) (hother _ _ · hrely)

theorem imp {p : Prop} (h : p → Stable rely holds) : Stable rely fun state => p → holds state :=
  fun _ _ hholds hrely hp => h hp _ _ (hholds hp) hrely

theorem ex {A : Type} {holds : A → σ → Prop} (h : ∀ a, Stable rely (holds a)) :
    Stable rely fun state => ∃ a, holds a state :=
  fun _ _ ⟨a, hholds⟩ hrely => ⟨a, h a _ _ hholds hrely⟩

theorem all {A : Type} {holds : A → σ → Prop} (h : ∀ a, Stable rely (holds a)) :
    Stable rely fun state => ∀ a, holds a state :=
  fun _ _ hholds hrely a => h a _ _ (hholds a) hrely

end Stable

namespace Program

variable {ε σ α β κ ν : Type} {rely guarantee : σ → σ → Prop}

/-- Whatever the others do between the steps within `rely`, each step of the program is within
`guarantee`, and its result is good in every state that follows. -/
def Meets (rely guarantee : σ → σ → Prop) (good : Except ε α → σ → Prop) :
    Program ε σ α → σ → Prop
  | .done result, state => ∀ later, ReflTransGen rely state later → good result later
  | .step change rest, state => ∀ later, ReflTransGen rely state later →
      guarantee later (change later) ∧ (rest later).Meets rely guarantee good (change later)

theorem Meets.later {program : Program ε σ α} {good : Except ε α → σ → Prop} {state later : σ}
    (h : program.Meets rely guarantee good state) (hrely : ReflTransGen rely state later) :
    program.Meets rely guarantee good later := by
  cases program with
  | done result => exact fun last hlast => h last (hrely.trans hlast)
  | step change rest => exact fun last hlast => h last (hrely.trans hlast)

theorem Meets.mono {program : Program ε σ α} {good other : Except ε α → σ → Prop} {state : σ}
    (h : program.Meets rely guarantee good state)
    (hgood : ∀ result last, good result last → other result last) :
    program.Meets rely guarantee other state := by
  induction program generalizing state with
  | done result => exact fun last hlast => hgood _ _ (h last hlast)
  | step change rest ih =>
    exact fun last hlast => ⟨(h last hlast).1, ih last (h last hlast).2⟩

/-- A program may be asked for less. -/
theorem Meets.guarantees {program : Program ε σ α} {good : Except ε α → σ → Prop} {state : σ}
    {other : σ → σ → Prop} (h : program.Meets rely guarantee good state)
    (hguarantee : ∀ before after, guarantee before after → other before after) :
    program.Meets rely other good state := by
  induction program generalizing state with
  | done result => exact h
  | step change rest ih =>
    exact fun last hlast => ⟨hguarantee _ _ (h last hlast).1, ih last (h last hlast).2⟩

/-- Alone, a program has a good result. -/
theorem Meets.exec {program : Program ε σ α} {good : Except ε α → σ → Prop} {state : σ}
    (h : program.Meets rely guarantee good state) :
    good (exec program.perform state).1 (exec program.perform state).2 := by
  induction program generalizing state with
  | done result => exact h state .refl
  | step change rest ih => exact ih state (h state .refl).2

theorem Meets.bind {program : Program ε σ α} {next : α → Program ε σ β}
    {good : Except ε α → σ → Prop} {last : Except ε β → σ → Prop} {state : σ}
    (h : program.Meets rely guarantee good state)
    (hok : ∀ value state, good (.ok value) state → (next value).Meets rely guarantee last state)
    (herror : ∀ error state, good (.error error) state → last (.error error) state) :
    (program >>= next).Meets rely guarantee last state := by
  induction program generalizing state with
  | done result =>
    cases result with
    | ok value => exact hok value state (h state .refl)
    | error error => exact fun later hlater => herror error later (h later hlater)
  | step change rest ih =>
    exact fun later hlater => ⟨(h later hlater).1, ih later (h later hlater).2⟩

/-- From every state where the first assertion holds, the program meets the second. -/
def Ensures (rely guarantee : σ → σ → Prop) (holds : σ → Prop) (program : Program ε σ α)
    (good : Except ε α → σ → Prop) : Prop :=
  ∀ state, holds state → program.Meets rely guarantee good state

namespace Ensures

variable {holds : σ → Prop} {good : Except ε α → σ → Prop}

theorem post {program : Program ε σ α} {other : Except ε α → σ → Prop}
    (h : Ensures rely guarantee holds program good)
    (hgood : ∀ result last, good result last → other result last) :
    Ensures rely guarantee holds program other := fun state hstate => (h state hstate).mono hgood

/-- A result that is good from the beginning. -/
theorem done {result : Except ε α} (hgood : Stable rely (good result))
    (h : ∀ state, holds state → good result state) :
    Ensures rely guarantee holds (.done result) good :=
  fun state hstate _ hlater => hgood.later (h state hstate) hlater

/-- One step, from any state in which the others may leave the assertion. -/
theorem atomic {effect : Effect ε σ α} (hholds : Stable rely holds)
    (hgood : ∀ result, Stable rely (good result))
    (h : ∀ state, holds state →
      guarantee state (exec effect state).2 ∧ good (exec effect state).1 (exec effect state).2) :
    Ensures rely guarantee holds (atomic effect) good := by
  intro state hstate later hlater
  obtain ⟨hguarantee, hresult⟩ := h later (hholds.later hstate hlater)
  exact ⟨hguarantee, fun _ hlast => (hgood _).later hresult hlast⟩

/-- A sequence goes on from what the first part ensures of its value; an error ends it. -/
theorem bind {program : Program ε σ α} {next : α → Program ε σ β} {last : Except ε β → σ → Prop}
    (h : Ensures rely guarantee holds program good)
    (hok : ∀ value, Ensures rely guarantee (good (.ok value)) (next value) last)
    (herror : ∀ error state, good (.error error) state → last (.error error) state) :
    Ensures rely guarantee holds (program >>= next) last :=
  fun state hstate => (h state hstate).bind hok herror

/-- A sequence goes on where the first part has one of some values. -/
theorem bind_some {program : Program ε σ α} {next : α → Program ε σ β}
    {last : Except ε β → σ → Prop} {p : α → Prop} {middle : σ → Prop}
    (h : Ensures rely guarantee holds program fun result state =>
      (∃ value, result = .ok value ∧ p value) ∧ middle state)
    (hnext : ∀ value, p value → Ensures rely guarantee middle (next value) last) :
    Ensures rely guarantee holds (program >>= next) last := by
  refine h.bind (fun value => ?_) ?_
  · rintro state ⟨⟨found, hfound, hp⟩, hstate⟩
    obtain rfl := Except.ok.inj hfound
    exact hnext value hp state hstate
  · rintro error state ⟨⟨found, hfound, -⟩, -⟩
    cases hfound

/-- A sequence goes on where the first part has a known value. -/
theorem bind_ok {program : Program ε σ α} {next : α → Program ε σ β}
    {last : Except ε β → σ → Prop} {value : α} {middle : σ → Prop}
    (h : Ensures rely guarantee holds program fun result state =>
      result = .ok value ∧ middle state)
    (hnext : Ensures rely guarantee middle (next value) last) :
    Ensures rely guarantee holds (program >>= next) last := by
  refine bind_some (h.post fun result state hresult => ⟨⟨value, hresult.1, rfl⟩, hresult.2⟩) ?_
  rintro _ rfl
  exact hnext

end Ensures

section Footprints

variable {view : σ → κ → ν} {keys spared : Set κ}

/-- No step of the program changes the keys. -/
def Spares (view : σ → κ → ν) (spared : Set κ) : Program ε σ α → Prop
  | .done _ => True
  | .step change rest =>
    (∀ state, AgreeOn view spared (change state) state) ∧ ∀ state, (rest state).Spares view spared

theorem Spares.pure (value : α) : Spares view spared (Pure.pure value : Program ε σ α) := trivial

theorem Spares.stop (error : ε) : Spares view spared (stop error : Program ε σ α) := trivial

theorem Spares.atomic {effect : Effect ε σ α}
    (h : ∀ state, AgreeOn view spared (exec effect state).2 state) :
    Spares view spared (atomic effect) := ⟨h, fun _ => trivial⟩

/-- A sequence spares the keys that both parts spare. -/
theorem Spares.bind {program : Program ε σ α} {next : α → Program ε σ β}
    (h : Spares view spared program) (hnext : ∀ value, Spares view spared (next value)) :
    Spares view spared (program >>= next) := by
  induction program with
  | done result =>
    cases result with
    | ok value => exact hnext value
    | error error => trivial
  | step change rest ih => exact ⟨h.1, fun state => ih state (h.2 state)⟩

/-- A program spares the keys outside its own. -/
theorem Within.spares {program : Program ε σ α} (h : Within view keys program)
    (hdisjoint : Disjoint keys spared) : Spares view spared program := by
  induction program with
  | done result => trivial
  | step change rest ih =>
    exact ⟨fun state key hkey => h.1 state key (Set.disjoint_right.mp hdisjoint hkey),
      fun state => ih state (h.2.2 state)⟩

/-- A program that spares the keys may run beside any others that ask no more than that. -/
theorem Spares.meets {program : Program ε σ α} (h : Spares view spared program)
    (hguarantee : ∀ state later, AgreeOn view spared later state → guarantee state later)
    {good : Except ε α → σ → Prop} (hgood : ∀ result state, good result state) (state : σ) :
    program.Meets rely guarantee good state := by
  induction program generalizing state with
  | done result => exact fun later _ => hgood result later
  | step change rest ih =>
    exact fun later _ => ⟨hguarantee _ _ (h.1 later), ih later (h.2 later) _⟩

/-- The others' steps leave two states in agreement. -/
theorem AgreeOn.later (hrely : ∀ state later, rely state later → AgreeOn view keys state later)
    {state own later : σ} (hagree : AgreeOn view keys state own)
    (hlater : ReflTransGen rely state later) : AgreeOn view keys later own := by
  induction hlater with
  | refl => exact hagree
  | tail _ hstep ih => exact fun key hkey => (hrely _ _ hstep key hkey).symm.trans (ih key hkey)

/-- Where the others leave a program's keys alone, it has the result, and leaves its keys the
values, that it has alone; and what it spares bounds its steps. -/
theorem Within.meets {program : Program ε σ α} (hwithin : Within view keys program)
    (hspares : Spares view spared program)
    (hrely : ∀ state later, rely state later → AgreeOn view keys state later)
    (hguarantee : ∀ state later, AgreeOn view spared later state → guarantee state later)
    {state own : σ} (hagree : AgreeOn view keys state own) :
    program.Meets rely guarantee (fun result later =>
      result = (exec program.perform own).1 ∧
        AgreeOn view keys later (exec program.perform own).2) state := by
  induction program generalizing state own with
  | done result => exact fun later hlater => ⟨rfl, AgreeOn.later hrely hagree hlater⟩
  | step change rest ih =>
    intro later hlater
    obtain ⟨-, hreads, hrest⟩ := hwithin
    obtain ⟨hsame, hchanged⟩ := hreads later own (AgreeOn.later hrely hagree hlater)
    refine ⟨hguarantee _ _ (hspares.1 later), ?_⟩
    rw [exec_perform_step, hsame]
    exact ih own (hrest own) (hspares.2 own) hchanged

end Footprints

end Program

open Program

/-- Threads whose steps are within what the others rely on are all right in every interleaving. -/
theorem Interleaves.meets {ι ε σ α : Type} [DecidableEq ι] {programs last : ι → Program ε σ α}
    {state final : σ} (h : Interleaves programs state last final) {rely guarantee : ι → σ → σ → Prop}
    {good : ι → Except ε α → σ → Prop}
    (hmeets : ∀ thread, (programs thread).Meets (rely thread) (guarantee thread) (good thread) state)
    (hcompatible : ∀ mover thread, mover ≠ thread → ∀ before after,
      guarantee mover before after → rely thread before after) (thread : ι) :
    (last thread).Meets (rely thread) (guarantee thread) (good thread) final := by
  induction h with
  | refl => exact hmeets thread
  | @step programs last state final change rest mover hmover _ ih =>
    have hstep := hmeets mover
    rw [hmover] at hstep
    obtain ⟨hguarantee, hrest⟩ := hstep state .refl
    refine ih fun other => ?_
    by_cases hother : other = mover
    · rw [hother, Function.update_self]
      exact hrest
    · rw [Function.update_of_ne hother]
      exact (hmeets other).later (.single (hcompatible mover other (Ne.symm hother) _ _ hguarantee))

/-- What one thread ensures from some state on, it has ensured in the end. -/
theorem Interleaves.meets_of_thread {ι ε σ α : Type} [DecidableEq ι]
    {programs last : ι → Program ε σ α} {state final : σ} (h : Interleaves programs state last final)
    {rely guarantee : ι → σ → σ → Prop} {good : ι → Except ε α → σ → Prop}
    (hmeets : ∀ thread, (programs thread).Meets (rely thread) (guarantee thread) (good thread) state)
    (hcompatible : ∀ mover thread, mover ≠ thread → ∀ before after,
      guarantee mover before after → rely thread before after) {thread : ι}
    {own : Except ε α → σ → Prop}
    (hown : (programs thread).Meets (rely thread) (guarantee thread) own state) :
    (last thread).Meets (rely thread) (guarantee thread) own final := by
  have hall (other : ι) : (programs other).Meets (rely other) (guarantee other)
      (Function.update good thread own other) state := by
    by_cases hother : other = thread
    · subst hother
      rwa [Function.update_self]
    · rw [Function.update_of_ne hother]
      exact hmeets other
  have hlast := h.meets hall hcompatible thread
  rwa [Function.update_self] at hlast

end Threads
