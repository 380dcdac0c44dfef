import PqcapReader.Library.Simulation

/-!
# Clients that choose their next request

A client asks one request after another, chooses each from the answers so far, and stops
with a result. A component that simulates a reference gives every client the result that
the reference gives it, as long as the client's requests to the reference are valid.
-/

namespace Simulation

variable {State Model Request Reply Answer Error Result : Type}

/-- What a client does next, and how it goes on from the answer. -/
inductive Client (Request Answer Result : Type) : Type
  | stop (result : Result)
  | ask (request : Request) (next : Answer → Client Request Answer Result)

namespace Client

/-- The client asks a component, of whose replies it sees a part. -/
def interact (serve : State → Request → Except Error (Reply × State)) (observe : Reply → Answer) :
    Client Request Answer Result → State → Except Error (Result × State)
  | .stop result, state => .ok (result, state)
  | .ask request next, state => do
    let (reply, state) ← serve state request
    (next (observe reply)).interact serve observe state

/-- The client asks a reference. -/
def consult (answer : Model → Request → Answer × Model) :
    Client Request Answer Result → Model → Result × Model
  | .stop result, model => (result, model)
  | .ask request next, model =>
    (next (answer model request).1).consult answer (answer model request).2

/-- The requests that the client makes of the reference are valid. -/
def Asks (answer : Model → Request → Answer × Model) (valid : Request → Prop) :
    Client Request Answer Result → Model → Prop
  | .stop _, _ => True
  | .ask request next, model =>
    valid request ∧ (next (answer model request).1).Asks answer valid (answer model request).2

end Client

/-- A component that simulates a reference gives a client the reference's result, and the states
stay related. -/
theorem Simulates.interact {serve : State → Request → Except Error (Reply × State)}
    {answer : Model → Request → Answer × Model} {valid : Request → Prop}
    {related : State → Model → Prop} {observe : Reply → Answer} {good : Reply → Prop}
    (hstep : Simulates serve answer valid related fun reply told =>
      observe reply = told ∧ good reply)
    (client : Client Request Answer Result) {state : State} {model : Model}
    (hasks : client.Asks answer valid model) (hrelated : related state model) :
    ∃ last, client.interact serve observe state = .ok ((client.consult answer model).1, last) ∧
      related last (client.consult answer model).2 := by
  induction client generalizing state model with
  | stop result => exact ⟨state, rfl, hrelated⟩
  | ask request next ih =>
    obtain ⟨hvalid, hrest⟩ := hasks
    obtain ⟨reply, following, hserve, ⟨hobserve, -⟩, hnext⟩ :=
      hstep state model request hrelated hvalid
    obtain ⟨last, hlast, hend⟩ := ih _ hrest hnext
    refine ⟨last, ?_, hend⟩
    rw [Client.interact, hserve]
    change (next (observe reply)).interact serve observe following = _
    rw [hobserve]
    exact hlast

end Simulation
