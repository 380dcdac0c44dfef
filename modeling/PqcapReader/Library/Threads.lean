import PqcapReader.Library.Effects
import Mathlib.Data.Set.Lattice
import Mathlib.Order.CompletePartialOrder

/-!
# Programs in steps, and their interleavings

A program takes atomic steps on a state that other threads change between them. Performed
without interruption it is an ordinary effect. Where each step of a thread reads and
changes only the thread's own keys of the state, and no two threads share a key, every
interleaving gives each thread the result, and leaves its keys the values, that it has
alone.
-/

namespace Threads

open Effects

/-- A program in atomic steps. Each step changes the state, and the state before it decides how
the program goes on. -/
inductive Program (ε σ α : Type) : Type
  | done (result : Except ε α)
  | step (change : σ → σ) (rest : σ → Program ε σ α)

namespace Program

variable {ε σ α β : Type}

/-- The program that goes on with the value of another, if it has one. -/
def bind : Program ε σ α → (α → Program ε σ β) → Program ε σ β
  | .done (.ok value), next => next value
  | .done (.error error), _ => .done (.error error)
  | .step change rest, next => .step change fun state => (rest state).bind next

instance : Monad (Program ε σ) where
  pure value := .done (.ok value)
  bind := bind

instance : LawfulMonad (Program ε σ) := LawfulMonad.mk' _
  (fun program => by
    induction program with
    | done result =>
      cases result with
      | ok value => rfl
      | error error => rfl
    | step change rest ih => exact congrArg (Program.step change) (funext ih))
  (fun _ _ => rfl)
  (fun program next last => by
    induction program with
    | done result =>
      cases result with
      | ok value => rfl
      | error error => rfl
    | step change rest ih => exact congrArg (Program.step change) (funext ih))

/-- The program that stops with an error. -/
def stop (error : ε) : Program ε σ α := .done (.error error)

/-- An effect as one step. -/
def atomic (effect : Effect ε σ α) : Program ε σ α :=
  .step (fun state => (exec effect state).2) fun state => .done (exec effect state).1

/-- All steps of a program, one after the other. -/
def perform : Program ε σ α → Effect ε σ α
  | .done result => fromExcept result
  | .step change rest => fun state => (rest state).perform (change state)

theorem exec_perform_step (change : σ → σ) (rest : σ → Program ε σ α) (state : σ) :
    exec (perform (.step change rest)) state = exec (rest state).perform (change state) := rfl

/-- Performed, the program goes on with the value of the other. -/
theorem exec_perform_bind (program : Program ε σ α) (next : α → Program ε σ β) (state : σ) :
    exec (program >>= next).perform state =
      exec (program.perform >>= fun value => (next value).perform) state := by
  induction program generalizing state with
  | done result =>
    cases result with
    | ok value => rfl
    | error error => rfl
  | step change rest ih =>
    rw [exec_bind, exec_perform_step, ← exec_bind]
    exact ih state (change state)

/-- The program does in steps what the effect does at once. -/
def Performs (program : Program ε σ α) (effect : Effect ε σ α) : Prop :=
  ∀ state, exec program.perform state = exec effect state

theorem Performs.atomic (effect : Effect ε σ α) : Performs (atomic effect) effect := fun _ => rfl

theorem Performs.perform (program : Program ε σ α) : Performs program program.perform := fun _ => rfl

theorem Performs.pure (value : α) :
    Performs (Pure.pure value : Program ε σ α) (Pure.pure value) := fun _ => rfl

theorem Performs.stop (error : ε) : Performs (stop error : Program ε σ α) (throw error) :=
  fun _ => rfl

/-- Steps that do what an effect does may be followed by steps that do what its continuation does. -/
theorem Performs.bind {program : Program ε σ α} {effect : Effect ε σ α}
    {next : α → Program ε σ β} {rest : α → Effect ε σ β} (h : Performs program effect)
    (hrest : ∀ value, Performs (next value) (rest value)) :
    Performs (program >>= next) (effect >>= rest) := by
  intro state
  rw [exec_perform_bind, exec_bind, exec_bind, h state]
  cases exec effect state with
  | mk result following =>
    cases result with
    | ok value => exact hrest value following
    | error error => rfl

/-- Programs for a list of arguments, one after the other. -/
theorem Performs.mapM {program : α → Program ε σ β} {effect : α → Effect ε σ β}
    (h : ∀ argument, Performs (program argument) (effect argument)) (arguments : List α) :
    Performs (arguments.mapM program) (arguments.mapM effect) := by
  induction arguments with
  | nil => exact Performs.pure []
  | cons argument rest ih =>
    rw [List.mapM_cons, List.mapM_cons]
    exact (h argument).bind fun value => ih.bind fun values => Performs.pure (value :: values)

/-- The states that a thread reaches alone, and what it has left to do there. -/
inductive Reaches : Program ε σ α → σ → Program ε σ α → σ → Prop
  | refl {program : Program ε σ α} {state : σ} : Reaches program state program state
  | step {change : σ → σ} {rest : σ → Program ε σ α} {state ended : σ} {left : Program ε σ α} :
      Reaches (rest state) (change state) left ended →
      Reaches (.step change rest) state left ended

/-- What is left to do is what remains of the whole. -/
theorem Reaches.exec_eq {program left : Program ε σ α} {state ended : σ}
    (h : Reaches program state left ended) :
    exec program.perform state = exec left.perform ended := by
  induction h with
  | refl => rfl
  | step _ ih => exact ih

theorem Reaches.trans {first second third : Program ε σ α} {state middle ended : σ}
    (h : Reaches first state second middle) (hrest : Reaches second middle third ended) :
    Reaches first state third ended := by
  induction h with
  | refl => exact hrest
  | step _ ih => exact .step (ih hrest)

/-- A thread is as far in the first part of a sequence as it is in that part alone. -/
theorem Reaches.bind {program left : Program ε σ α} {state ended : σ}
    (h : Reaches program state left ended) (next : α → Program ε σ β) :
    Reaches (program >>= next) state (left >>= next) ended := by
  induction h with
  | refl => exact .refl
  | step _ ih => exact .step ih

/-- Alone, a thread comes to its result. -/
theorem Reaches.result (program : Program ε σ α) (state : σ) :
    Reaches program state (.done (exec program.perform state).1) (exec program.perform state).2 := by
  induction program generalizing state with
  | done result => exact .refl
  | step change rest ih => exact .step (ih state (change state))

/-- A thread comes to the second part of a sequence with the value of what the first does. -/
theorem Performs.reaches {program : Program ε σ α} {effect : Effect ε σ α} {state ended : σ}
    {value : α} (h : Performs program effect) (hexec : exec effect state = (.ok value, ended))
    (next : α → Program ε σ β) : Reaches (program >>= next) state (next value) ended := by
  have hresult := Reaches.result program state
  rw [h state, hexec] at hresult
  exact hresult.bind next

section Footprints

variable {κ ν : Type} (view : σ → κ → ν) (keys : Set κ)

/-- Two states have the same values at the keys. -/
def AgreeOn (left right : σ) : Prop := ∀ key ∈ keys, view left key = view right key

/-- An effect reads and changes nothing but the keys. -/
structure Local (effect : Effect ε σ α) : Prop where
  frame : ∀ state key, key ∉ keys → view (exec effect state).2 key = view state key
  reads : ∀ left right, AgreeOn view keys left right →
    (exec effect left).1 = (exec effect right).1 ∧
      AgreeOn view keys (exec effect left).2 (exec effect right).2

/-- Each step of the program reads and changes nothing but the keys. -/
def Within : Program ε σ α → Prop
  | .done _ => True
  | .step change rest =>
    (∀ state key, key ∉ keys → view (change state) key = view state key) ∧
      (∀ left right, AgreeOn view keys left right →
        rest left = rest right ∧ AgreeOn view keys (change left) (change right)) ∧
        ∀ state, (rest state).Within

variable {view keys}

theorem Within.pure (value : α) : Within view keys (Pure.pure value : Program ε σ α) := trivial

theorem Within.stop (error : ε) : Within view keys (stop error : Program ε σ α) := trivial

theorem Local.within {effect : Effect ε σ α} (h : Local view keys effect) :
    Within view keys (atomic effect) :=
  ⟨h.frame, fun left right hagree =>
    ⟨congrArg Program.done (h.reads left right hagree).1, (h.reads left right hagree).2⟩,
    fun _ => trivial⟩

/-- Every value that the program can return, from whatever states its steps start, is good. -/
def Returns (good : α → Prop) : Program ε σ α → Prop
  | .done result => ∀ value, result = .ok value → good value
  | .step _ rest => ∀ state, (rest state).Returns good

/-- A sequence stays within the keys when its first part does, and its second part does for the
values that the first part can return. -/
theorem Within.bind_of_returns {program : Program ε σ α} {next : α → Program ε σ β}
    {good : α → Prop} (h : Within view keys program) (hreturns : Returns good program)
    (hnext : ∀ value, good value → Within view keys (next value)) :
    Within view keys (program >>= next) := by
  induction program with
  | done result =>
    cases result with
    | ok value => exact hnext value (hreturns value rfl)
    | error error => trivial
  | step change rest ih =>
    obtain ⟨hframe, hreads, hrest⟩ := h
    refine ⟨hframe, fun left right hagree => ?_, fun state => ih state (hrest state) (hreturns state)⟩
    obtain ⟨hsame, hchanged⟩ := hreads left right hagree
    exact ⟨congrArg (Program.bind · next) hsame, hchanged⟩

theorem returns_true (program : Program ε σ α) : Returns (fun _ => True) program := by
  induction program with
  | done result => exact fun _ _ => trivial
  | step change rest ih => exact ih

/-- A sequence stays within the keys when both parts do. -/
theorem Within.bind {program : Program ε σ α} {next : α → Program ε σ β}
    (h : Within view keys program) (hnext : ∀ value, Within view keys (next value)) :
    Within view keys (program >>= next) :=
  h.bind_of_returns (returns_true program) fun value _ => hnext value

/-- Programs for a list of arguments stay within the keys when each does. -/
theorem Within.mapM {program : α → Program ε σ β} {arguments : List α}
    (h : ∀ argument ∈ arguments, Within view keys (program argument)) :
    Within view keys (arguments.mapM program) := by
  induction arguments with
  | nil => exact Within.pure []
  | cons argument rest ih =>
    rw [List.mapM_cons]
    exact (h argument List.mem_cons_self).bind fun value =>
      (ih fun other hother => h other (List.mem_cons_of_mem _ hother)).bind fun values =>
        Within.pure (value :: values)

end Footprints

end Program

open Program

variable {ι ε σ α κ ν : Type} [DecidableEq ι]

/-- A part of an interleaving of the threads' programs: what each thread has left to do in the
state that is reached. -/
inductive Interleaves : (ι → Program ε σ α) → σ → (ι → Program ε σ α) → σ → Prop
  | refl {programs : ι → Program ε σ α} {state : σ} : Interleaves programs state programs state
  | step {programs last : ι → Program ε σ α} {state final : σ} {change : σ → σ}
      {rest : σ → Program ε σ α} (thread : ι) : programs thread = .step change rest →
      Interleaves (Function.update programs thread (rest state)) (change state) last final →
      Interleaves programs state last final

/-- Two threads. -/
def pair (left right : Program ε σ α) : Bool → Program ε σ α
  | false => left
  | true => right

theorem update_pair_left (left right reached : Program ε σ α) :
    Function.update (pair left right) false reached = pair reached right := by
  funext thread
  cases thread with
  | false => rfl
  | true => rfl

theorem update_pair_right (left right reached : Program ε σ α) :
    Function.update (pair left right) true reached = pair left reached := by
  funext thread
  cases thread with
  | false => rfl
  | true => rfl

namespace Interleaves

/-- A thread may run as far as it gets alone before the others go on. -/
theorem of_reaches {programs last : ι → Program ε σ α} {state middle final : σ} (thread : ι)
    {left : Program ε σ α} (h : Reaches (programs thread) state left middle)
    (hrest : Interleaves (Function.update programs thread left) middle last final) :
    Interleaves programs state last final := by
  generalize hprogram : programs thread = program at h
  induction h generalizing programs with
  | refl =>
    rwa [← hprogram, Function.update_eq_self] at hrest
  | @step change rest state ended left _ ih =>
    refine .step thread hprogram (ih ?_ (Function.update_self _ _ _))
    rwa [Function.update_idem]

/-- A thread may come to its result before the others go on. -/
theorem exists_done (programs : ι → Program ε σ α) (state : σ) (thread : ι) :
    ∃ last, Interleaves programs state last (exec (programs thread).perform state).2 ∧
      last thread = .done (exec (programs thread).perform state).1 ∧
        ∀ other, other ≠ thread → last other = programs other :=
  ⟨_, of_reaches thread (Reaches.result _ _) .refl, Function.update_self _ _ _,
    fun _ hother => Function.update_of_ne hother _ _⟩

/-- The first of two threads may run as far as it gets alone. -/
theorem left {left right reached : Program ε σ α} {state middle final : σ}
    {last : Bool → Program ε σ α} (h : Reaches left state reached middle)
    (hrest : Interleaves (pair reached right) middle last final) :
    Interleaves (pair left right) state last final := by
  refine of_reaches false h ?_
  rwa [update_pair_left]

/-- The second of two threads may run as far as it gets alone. -/
theorem right {left right reached : Program ε σ α} {state middle final : σ}
    {last : Bool → Program ε σ α} (h : Reaches right state reached middle)
    (hrest : Interleaves (pair left reached) middle last final) :
    Interleaves (pair left right) state last final := by
  refine of_reaches true h ?_
  rwa [update_pair_right]

/-- The second of two threads may come to its result while the first is on its way to its own. -/
theorem exists_nested {left begun : Program ε σ α} {state middle : σ}
    (h : Reaches left state begun middle) (right : Program ε σ α) :
    ∃ first second between final,
      Interleaves (pair left right) state (pair begun (.done second)) between ∧
        Interleaves (pair begun (.done second)) between (pair (.done first) (.done second)) final :=
  ⟨_, _, _, _, .left h (.right (Reaches.result right middle) .refl),
    .left (Reaches.result begun _) .refl⟩

/-- An interleaving may go on. -/
theorem trans {first second third : ι → Program ε σ α} {state middle final : σ}
    (h : Interleaves first state second middle) (hrest : Interleaves second middle third final) :
    Interleaves first state third final := by
  induction h with
  | refl => exact hrest
  | step thread hthread _ ih => exact .step thread hthread (ih hrest)

variable {programs last : ι → Program ε σ α} {state final : σ} {view : σ → κ → ν}
  {keys : ι → Set κ}

/-- What is left of the threads stays within their keys. -/
theorem within_update {thread : ι} {change : σ → σ} {rest : σ → Program ε σ α}
    (hthread : programs thread = .step change rest)
    (hwithin : ∀ other, (programs other).Within view (keys other)) (state : σ) (other : ι) :
    (Function.update programs thread (rest state) other).Within view (keys other) := by
  by_cases h : other = thread
  · have hstep := hwithin thread
    rw [hthread] at hstep
    rw [h, Function.update_self]
    exact hstep.2.2 state
  · rw [Function.update_of_ne h]
    exact hwithin other

/-- In every interleaving each thread gets as far as it can get alone, from any state that has the
same values at its keys, and its keys have the values that they have then. -/
theorem isolated (h : Interleaves programs state last final)
    (hwithin : ∀ thread, (programs thread).Within view (keys thread))
    (hdisjoint : Pairwise fun left right => Disjoint (keys left) (keys right)) (thread : ι)
    {own : σ} (hagree : AgreeOn view (keys thread) state own) :
    ∃ ended, Reaches (programs thread) own (last thread) ended ∧
      AgreeOn view (keys thread) final ended := by
  induction h generalizing own with
  | refl => exact ⟨own, .refl, hagree⟩
  | @step programs last state final change rest mover hmover _ ih =>
    have hstep := hwithin mover
    rw [hmover] at hstep
    obtain ⟨hframe, hreads, -⟩ := hstep
    have hrest := within_update hmover hwithin state
    by_cases hthread : thread = mover
    · subst hthread
      obtain ⟨hsame, hchanged⟩ := hreads state own hagree
      obtain ⟨ended, hreaches, hended⟩ := ih hrest hchanged
      rw [Function.update_self, hsame] at hreaches
      exact ⟨ended, hmover ▸ .step hreaches, hended⟩
    · -- Another thread's step changes none of this thread's keys.
      have hkept : AgreeOn view (keys thread) (change state) own := by
        intro key hkey
        rw [hframe state key (Set.disjoint_left.mp (hdisjoint hthread) hkey)]
        exact hagree key hkey
      obtain ⟨ended, hreaches, hended⟩ := ih hrest hkept
      rw [Function.update_of_ne hthread] at hreaches
      exact ⟨ended, hreaches, hended⟩

/-- A key of no thread keeps its value. -/
theorem untouched (h : Interleaves programs state last final)
    (hwithin : ∀ thread, (programs thread).Within view (keys thread)) {key : κ}
    (hkey : ∀ thread, key ∉ keys thread) : view final key = view state key := by
  induction h with
  | refl => rfl
  | @step programs last state final change rest mover hmover _ ih =>
    have hstep := hwithin mover
    rw [hmover] at hstep
    rw [ih (within_update hmover hwithin state), hstep.1 state key (hkey mover)]

/-- When all threads are done, each has the result that it has alone, and has left its keys the
values that it leaves alone; all other keys are as they were. -/
theorem finished (h : Interleaves programs state last final)
    (hwithin : ∀ thread, (programs thread).Within view (keys thread))
    (hdisjoint : Pairwise fun left right => Disjoint (keys left) (keys right))
    {results : ι → Except ε α} (hdone : ∀ thread, last thread = .done (results thread)) :
    (∀ thread, results thread = (exec (programs thread).perform state).1 ∧
        AgreeOn view (keys thread) final (exec (programs thread).perform state).2) ∧
      ∀ key, (∀ thread, key ∉ keys thread) → view final key = view state key := by
  refine ⟨fun thread => ?_, fun key hkey => h.untouched hwithin hkey⟩
  obtain ⟨ended, hreaches, hended⟩ := h.isolated hwithin hdisjoint thread fun _ _ => rfl
  have halone := hreaches.exec_eq
  rw [hdone thread] at halone
  rw [halone]
  exact ⟨rfl, hended⟩

end Interleaves

end Threads
