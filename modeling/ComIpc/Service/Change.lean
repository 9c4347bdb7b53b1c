import ComIpc.Service.Tenure

/-! What one step of the service machine can do, as long as no process dies and no
answer is ambiguous.

Most steps only lower flags and end waits. Four kinds matter for the attribution of
answers: a request is posted, picked up, completed, and its response taken.
-/

set_option autoImplicit false

namespace ComIpc.Service

open Semantics SystemManager

structure Lowered (before after : ServiceShm) : Prop where
  request : after.request = before.request
  response : after.response = before.response
  hasRequest : after.hasRequest = true → before.hasRequest = true
  hasResponse : after.hasResponse = true → before.hasResponse = true

theorem Lowered.mutex (shm : ServiceShm) (mutex : RobustMutex) :
    Lowered shm { shm with mutex := mutex } := ⟨rfl, rfl, id, id⟩

theorem Lowered.reset (shm : ServiceShm) (mutex : RobustMutex) :
    Lowered shm { shm with mutex := mutex, hasRequest := false, hasResponse := false } :=
  ⟨rfl, rfl, fun raised => (nomatch raised), fun raised => (nomatch raised)⟩

/-- The number under which a client waits for its response, and the ticket of its call. -/
def Client.awaits (client : Client) : Option (Int32 × Nat) :=
  match client.phase with
  | .waitResponse _ ticket => some (client.nextReqId, ticket)
  | _ => none

section
variable {C D : Type}

variable [DecidableEq C] [DecidableEq D]

def Unshared (s : State C D) (request : Request) : Prop :=
  ∀ c, ∀ wait ∈ (s.clients c).bind Client.awaits,
    wait.1 = request.requestId → wait.2 = request.ticket

/-- No process dies, and a callback succeeds only while no other call waits under the number
of its request. -/
def Unambiguous (s : State C D) : Event C D → Prop
  | .complete d outcome => outcome.success = true →
    match s.drivers d with
    | .serving request => Unshared s request
    | _ => True
  | .clientDies _ _ _ | .driverDies _ _ _ => False
  | _ => True

instance {n : Nat} (s : State (Fin n) D) (e : Event (Fin n) D) : Decidable (Unambiguous s e) :=
  match e with
  | .complete d outcome =>
    match serving : s.drivers d with
    | .serving request =>
      decidable_of_iff (outcome.success = true → ∀ c, ∀ wait ∈ (s.clients c).bind Client.awaits,
        wait.1 = request.requestId → wait.2 = request.ticket)
        (by simp only [Unambiguous, serving, Unshared])
    | .idle | .waiting => isTrue (by simp [Unambiguous, serving])
  | .clientDies _ _ _ | .driverDies _ _ _ => isFalse id
  | .connect _ _ | .call _ _ _ _ | .freeWake _ _ _ _ | .responseWake _ _ _ | .serviceLoop _ _ _
  | .loopWake _ _ _ _ | .spinOnce _ => isTrue trivial

inductive Change (s : State C D) : State C D → Prop where
  | quiet {shm : ServiceShm} {clients : C → Option Client} {drivers : D → Driver} :
      Lowered s.shm shm → FewerWaits s.clients clients → FewerCallbacks s.drivers drivers →
      Change s { s with shm := shm, clients := clients, drivers := drivers }
  | posted {shm : ServiceShm} (c : C) (client : Client) (call : Call) :
      shm.hasResponse = false → shm.request.ticket = s.posts.length →
      shm.request.data.take shm.request.dataSize.toNat = call.request.bytes →
      (∀ other ticket, client.phase = .waitResponse other ticket →
        other = call ∧ ticket = s.posts.length) →
      Change s (State.putClient { s with shm := shm, posts := s.posts ++ [⟨c, call⟩] } c client)
  | pickedUp {shm : ServiceShm} (d : D) : s.shm.hasRequest = true → Lowered s.shm shm →
      Change s (State.putDriver { s with shm := shm } d (.serving s.shm.request))
  | completed (d : D) {request : Request} (mutex : RobustMutex) (outcome : Outcome) :
      s.drivers d = .serving request → (outcome.success = true → Unshared s request) →
      Change s (State.putDriver { s with
        shm := { s.shm.complete request outcome with mutex := mutex }
        served := s.served ++ [⟨request.ticket, request.data, request.dataSize, outcome⟩] }
        d .idle)
  | delivered {shm : ServiceShm} (c : C) {client : Client} {call : Call} {ticket : Nat} :
      s.clients c = some client → client.phase = .waitResponse call ticket →
      s.shm.hasResponse = true → s.shm.response.requestId = client.nextReqId →
      Lowered s.shm shm → shm.hasResponse = false →
      Change s (State.putClient { s with
        shm := shm
        returned := s.returned ++ [⟨c, call, ticket, s.shm.response.data.take call.respSize⟩] }
        c { client with phase := .idle })

omit [DecidableEq C] [DecidableEq D] in
theorem Unambiguous.alive {s : State C D} {e : Event C D} (ok : Unambiguous s e) : ¬ e.Dies := by
  intro dies
  cases e with
  | clientDies | driverDies => exact ok
  | connect | call | freeWake | responseWake | serviceLoop | loopWake | spinOnce | complete =>
    exact dies

theorem next_change {s t : State C D} {e : Event C D} (ok : Unambiguous s e)
    (taken : next s e = some t) : Change s t := by
  cases next_tenure (Event.outside ok.alive) taken with
  | kept mutex fewer _ callbacks => exact .quiet (.mutex s.shm mutex) fewer callbacks
  | reset mutex _ fewer _ callbacks => exact .quiet (.reset s.shm mutex) fewer callbacks
  | posted mutex c call _ _ _ _ waits =>
    exact .posted c _ call rfl rfl (post_data s.shm _ _ call _) waits
  | pickedUp mutex d pending _ _ => exact .pickedUp d pending (.mutex s.shm mutex)
  | @completed mutex d request outcome same serving =>
    subst same
    refine .completed d mutex outcome serving ?_
    simpa only [Unambiguous, serving] using ok
  | delivered mutex c _ alive waits present number =>
    exact .delivered c alive waits present number ⟨rfl, rfl, id, fun raised => nomatch raised⟩ rfl

end

end ComIpc.Service
