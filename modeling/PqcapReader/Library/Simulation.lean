import Mathlib.Data.List.Forall2
import Mathlib.Tactic.Common

/-!
# Components that answer requests

A component answers one request at a time from a state, and may stop with an error. A
reference answers from a state of its own and never stops. When each single answer of the
component agrees with the reference's and keeps the two states related, whole runs do.
-/

namespace Simulation

variable {State Model Request Reply Answer Error : Type}

/-- A component answers requests in order; its first error stops the run. -/
def serveAll (serve : State → Request → Except Error (Reply × State)) :
    State → List Request → Except Error (List Reply × State)
  | state, [] => .ok ([], state)
  | state, request :: requests => do
    let (reply, next) ← serve state request
    let (replies, last) ← serveAll serve next requests
    pure (reply :: replies, last)

/-- A reference answers requests in order. -/
def answerAll (answer : Model → Request → Answer × Model) :
    Model → List Request → List Answer × Model
  | model, [] => ([], model)
  | model, request :: requests =>
    let (first, next) := answer model request
    let (answers, last) := answerAll answer next requests
    (first :: answers, last)

/-- One answer of the component agrees with the reference's, from related states to related
states. -/
def Simulates (serve : State → Request → Except Error (Reply × State))
    (answer : Model → Request → Answer × Model) (valid : Request → Prop)
    (related : State → Model → Prop) (agrees : Reply → Answer → Prop) : Prop :=
  ∀ state model request, related state model → valid request →
    ∃ reply next, serve state request = .ok (reply, next) ∧
      agrees reply (answer model request).1 ∧ related next (answer model request).2

/-- What holds of one answer holds of a run, and no run stops. -/
theorem Simulates.run {serve : State → Request → Except Error (Reply × State)}
    {answer : Model → Request → Answer × Model} {valid : Request → Prop}
    {related : State → Model → Prop} {agrees : Reply → Answer → Prop}
    (hstep : Simulates serve answer valid related agrees) (requests : List Request)
    (hvalid : ∀ request ∈ requests, valid request) {state : State} {model : Model}
    (hrelated : related state model) :
    ∃ replies last, serveAll serve state requests = .ok (replies, last) ∧
      List.Forall₂ agrees replies (answerAll answer model requests).1 ∧
        related last (answerAll answer model requests).2 := by
  induction requests generalizing state model with
  | nil => exact ⟨[], state, rfl, .nil, hrelated⟩
  | cons request requests ih =>
    obtain ⟨reply, next, hserve, hagrees, hnext⟩ :=
      hstep state model request hrelated (hvalid request List.mem_cons_self)
    obtain ⟨replies, last, hrun, hall, hlast⟩ :=
      ih (fun other hmem => hvalid other (List.mem_cons_of_mem _ hmem)) hnext
    refine ⟨reply :: replies, last, ?_, .cons hagrees hall, hlast⟩
    rw [serveAll, hserve]
    change (serveAll serve next requests >>= _) = _
    rw [hrun]
    rfl

/-- Agreement that observes each reply gives the observed run. -/
theorem map_eq_of_forall₂ {observe : Reply → Answer} {good : Reply → Prop} {replies : List Reply}
    {answers : List Answer}
    (h : List.Forall₂ (fun reply answer => observe reply = answer ∧ good reply) replies answers) :
    replies.map observe = answers ∧ ∀ reply ∈ replies, good reply := by
  induction h with
  | nil => exact ⟨rfl, by simp⟩
  | cons hfirst _ ih =>
    obtain ⟨hobserve, hgood⟩ := hfirst
    exact ⟨by rw [List.map_cons, hobserve, ih.1], List.forall_mem_cons.mpr ⟨hgood, ih.2⟩⟩

/-- In a run of a component that always answers, each state behind a request is within the
request's bounds. -/
def StaysWithin (perform : State → Request → Reply × State) (within : Request → State → Prop) :
    State → List Request → Prop
  | _, [] => True
  | state, request :: requests =>
    within request (perform state request).2 ∧
      StaysWithin perform within (perform state request).2 requests

instance (perform : State → Request → Reply × State) (within : Request → State → Prop)
    [∀ request state, Decidable (within request state)] :
    ∀ (state : State) (requests : List Request), Decidable (StaysWithin perform within state requests)
  | _, [] => inferInstanceAs (Decidable True)
  | state, request :: requests =>
    have := instDecidableStaysWithin perform within (perform state request).2 requests
    inferInstanceAs (Decidable (_ ∧ _))

/-- One answer from related states agrees with the reference's and keeps the states related, if it
stays within bounds. -/
def Follows (perform : State → Request → Reply × State) (answer : Model → Request → Answer × Model)
    (valid : Request → Prop) (within : Request → State → Prop) (related : State → Model → Prop)
    (agrees : Reply → Answer → Prop) : Prop :=
  ∀ state model request, related state model → valid request →
    within request (perform state request).2 →
      agrees (perform state request).1 (answer model request).1 ∧
        related (perform state request).2 (answer model request).2

/-- What holds of one answer holds of a run. -/
theorem Follows.run {perform : State → Request → Reply × State}
    {answer : Model → Request → Answer × Model} {valid : Request → Prop}
    {within : Request → State → Prop} {related : State → Model → Prop}
    {agrees : Reply → Answer → Prop}
    (hstep : Follows perform answer valid within related agrees) (requests : List Request)
    (hvalid : ∀ request ∈ requests, valid request) {state : State}
    (hwithin : StaysWithin perform within state requests) {model : Model}
    (hrelated : related state model) :
    List.Forall₂ agrees (answerAll perform state requests).1 (answerAll answer model requests).1 ∧
      related (answerAll perform state requests).2 (answerAll answer model requests).2 := by
  induction requests generalizing state model with
  | nil => exact ⟨.nil, hrelated⟩
  | cons request requests ih =>
    obtain ⟨hfirst, hrest⟩ := hwithin
    obtain ⟨hagrees, hnext⟩ :=
      hstep state model request hrelated (hvalid request List.mem_cons_self) hfirst
    obtain ⟨hall, hlast⟩ :=
      ih (fun other hmem => hvalid other (List.mem_cons_of_mem _ hmem)) hrest hnext
    exact ⟨.cons hagrees hall, hlast⟩

end Simulation
