import ComIpc.Service.Machine

/-! What one tenure of the service mutex does to the slot.

Both flags are written in several places by parties that do not know whose request they
find. The inversion lemma lists the places once, with the condition each of them tests;
the laws about the flags, the stored request and the stored response are read off it.
-/

set_option autoImplicit false

namespace ComIpc.Service

open Semantics SystemManager

theorem post_size (shm : ServiceShm) (clientPid requestId : Int32) (call : Call) (ticket : Nat) :
    (shm.post clientPid requestId call ticket).request.dataSize.toNat =
      call.request.bytes.length := by
  have small : call.request.bytes.length < 2 ^ 32 :=
    Nat.lt_of_le_of_lt call.request.fits (by decide)
  exact (UInt32.toNat_ofNat' ..).trans (Nat.mod_eq_of_lt small)

theorem post_data (shm : ServiceShm) (clientPid requestId : Int32) (call : Call) (ticket : Nat) :
    (shm.post clientPid requestId call ticket).request.data.take
      (shm.post clientPid requestId call ticket).request.dataSize.toNat = call.request.bytes := by
  rw [post_size]
  simp only [ServiceShm.post]
  rw [take_memcpy (Nat.le_refl _), List.take_length]

section
variable {C D : Type}

/-- A client that waits for a response after the step was already waiting before it. -/
def FewerWaits (before after : C → Option Client) : Prop :=
  ∀ c client call ticket, after c = some client → client.phase = .waitResponse call ticket →
    before c = some client

def FewerCallbacks (before after : D → Driver) : Prop :=
  ∀ d request, after d = .serving request → before d = .serving request

theorem FewerWaits.refl (clients : C → Option Client) : FewerWaits clients clients :=
  fun _ _ _ _ found _ => found

theorem FewerCallbacks.refl (drivers : D → Driver) : FewerCallbacks drivers drivers :=
  fun _ _ serving => serving

def Event.waiter : Event C D → Option C
  | .responseWake c _ _ | .clientDies c _ _ => some c
  | _ => none

/-- A call that waits for its response goes on waiting, except for the one that wakes. -/
def StillWaiting (s : State C D) (e : Event C D) (after : C → Option Client) : Prop :=
  ∀ c client call ticket, s.clients c = some client → client.phase = .waitResponse call ticket →
    e.waiter ≠ some c → after c = some client

theorem StillWaiting.refl (s : State C D) (e : Event C D) : StillWaiting s e s.clients :=
  fun _ _ _ _ found _ _ => found

/-- What the wait returns that this step ends. -/
def Event.reports (s : State C D) : Event C D → Option Ret
  | .freeWake _ cause _ _ | .responseWake _ cause _ | .loopWake _ cause _ _ =>
    (s.shm.mutex.reacquire cause).map Prod.snd
  | _ => none

/-- The client that leaves one of its two waits on an error in this step. -/
def Event.abandons (s : State C D) (e : Event C D) : Option C :=
  match e with
  | .freeWake c _ _ _ | .responseWake c _ _ => if e.reports s = some .ok then none else some c
  | _ => none

def Event.Repairs (s : State C D) (e : Event C D) : Prop :=
  (match e with
    | .loopWake _ _ _ _ => True
    | _ => False) ∧ e.reports s = some .ownerDead

def Event.Dies : Event C D → Prop
  | .clientDies _ _ _ | .driverDies _ _ _ => True
  | _ => False

def Event.DiesInside : Event C D → Prop
  | .clientDies _ holding _ | .driverDies _ holding _ => holding = true
  | _ => False

/-- The server's look at the slot, with what it reads from `running_` and
`g_shutdown_requested`. -/
def Event.looks : Event C D → Option (D × Bool × Bool)
  | .serviceLoop d running shutdown | .loopWake d _ running shutdown => some (d, running, shutdown)
  | .spinOnce d => some (d, true, false)
  | _ => none

theorem Event.outside {e : Event C D} (alive : ¬ e.Dies) : ¬ e.DiesInside := by
  intro inside
  cases e with
  | clientDies | driverDies => exact alive trivial
  | connect | call | freeWake | responseWake | serviceLoop | loopWake | spinOnce | complete =>
    exact inside

instance (e : Event C D) : Decidable e.DiesInside :=
  match e with
  | .clientDies _ holding _ | .driverDies _ holding _ =>
    inferInstanceAs (Decidable (holding = true))
  | .connect _ _ | .call _ _ _ _ | .freeWake _ _ _ _ | .responseWake _ _ _ | .serviceLoop _ _ _
  | .loopWake _ _ _ _ | .spinOnce _ | .complete _ _ => isFalse id

instance (s : State C D) (e : Event C D) : Decidable (e.Repairs s) :=
  match e with
  | .loopWake _ _ _ _ => inferInstanceAs (Decidable (_ ∧ _))
  | .connect _ _ | .call _ _ _ _ | .freeWake _ _ _ _ | .responseWake _ _ _ | .serviceLoop _ _ _
  | .spinOnce _ | .complete _ _ | .clientDies _ _ _ | .driverDies _ _ _ =>
    isFalse fun repairs => repairs.1

instance (e : Event C D) : Decidable e.Dies :=
  match e with
  | .clientDies _ _ _ | .driverDies _ _ _ => isTrue trivial
  | .connect _ _ | .call _ _ _ _ | .freeWake _ _ _ _ | .responseWake _ _ _ | .serviceLoop _ _ _
  | .loopWake _ _ _ _ | .spinOnce _ | .complete _ _ => isFalse id

variable [DecidableEq C] [DecidableEq D]

theorem FewerWaits.update (clients : C → Option Client) (c : C) {client : Client}
    (elsewhere : ∀ call ticket, client.phase ≠ .waitResponse call ticket) :
    FewerWaits clients (Function.update clients c (some client)) := by
  intro other found call ticket same waits
  by_cases self : other = c
  · subst self
    simp only [Function.update_self, Option.some.injEq] at same
    exact absurd (same ▸ waits) (elsewhere call ticket)
  · simpa [self] using same

theorem FewerWaits.dies (clients : C → Option Client) (c : C) :
    FewerWaits clients (Function.update clients c none) := by
  intro other found call ticket same waits
  by_cases self : other = c
  · subst self
    simp at same
  · simpa [self] using same

theorem FewerCallbacks.update (drivers : D → Driver) (d : D) {driver : Driver}
    (elsewhere : ∀ request, driver ≠ .serving request) :
    FewerCallbacks drivers (Function.update drivers d driver) := by
  intro other request serving
  by_cases self : other = d
  · subst self
    simp only [Function.update_self] at serving
    exact absurd serving (elsewhere request)
  · simpa [self] using serving

omit [DecidableEq D] in
theorem StillWaiting.update {s : State C D} {e : Event C D} {c : C}
    (after : Option Client)
    (acts : e.waiter = some c ∨
      ∀ client call ticket, s.clients c = some client → client.phase ≠ .waitResponse call ticket) :
    StillWaiting s e (Function.update s.clients c after) := by
  intro other client call ticket found waits apart
  by_cases self : other = c
  · subst self
    rcases acts with wakes | elsewhere
    · exact absurd wakes apart
    · exact absurd waits (elsewhere client call ticket found)
  · simpa [self] using found

/-- One step, as long as nobody dies inside a critical section. -/
inductive Tenure (s : State C D) (e : Event C D) : State C D → Prop where
  | kept (mutex : RobustMutex) {clients : C → Option Client} {drivers : D → Driver} :
      FewerWaits s.clients clients → StillWaiting s e clients →
      FewerCallbacks s.drivers drivers →
      Tenure s e { s with
        shm := { s.shm with mutex := mutex }, clients := clients, drivers := drivers }
  | reset (mutex : RobustMutex) {clients : C → Option Client} {drivers : D → Driver} :
      e.abandons s ≠ none ∨ e.Repairs s →
      FewerWaits s.clients clients → StillWaiting s e clients →
      FewerCallbacks s.drivers drivers →
      Tenure s e { s with
        shm := { s.shm with mutex := mutex, hasRequest := false, hasResponse := false }
        clients := clients, drivers := drivers }
  | posted (mutex : RobustMutex) (c : C) {before after : Client} (call : Call) :
      s.shm.hasRequest = false → s.clients c = some before →
      (∀ other ticket, before.phase ≠ .waitResponse other ticket) →
      after.nextReqId = before.nextReqId + 1 →
      (∀ other ticket, after.phase = .waitResponse other ticket →
        other = call ∧ ticket = s.posts.length) →
      Tenure s e (State.putClient { s with
        shm := { s.shm.post before.pid (before.nextReqId + 1) call s.posts.length with
          mutex := mutex }
        posts := s.posts ++ [⟨c, call⟩] } c after)
  | pickedUp (mutex : RobustMutex) (d : D) :
      s.shm.hasRequest = true → s.shm.hasResponse = false →
      (∀ request, s.drivers d ≠ .serving request) →
      Tenure s e (State.putDriver { s with shm := { s.shm with mutex := mutex } } d
        (.serving s.shm.request))
  | completed (mutex : RobustMutex) (d : D) {request : Request} {outcome : Outcome} :
      e = .complete d outcome → s.drivers d = .serving request →
      Tenure s e (State.putDriver { s with
        shm := { s.shm.complete request outcome with mutex := mutex }
        served := s.served ++ [⟨request.ticket, request.data, request.dataSize, outcome⟩] }
        d .idle)
  | delivered (mutex : RobustMutex) (c : C) {client : Client} {call : Call} {ticket : Nat} :
      e.waiter = some c → s.clients c = some client →
      client.phase = .waitResponse call ticket →
      s.shm.hasResponse = true → s.shm.response.requestId = client.nextReqId →
      Tenure s e (State.putClient { s with
        shm := { s.shm with mutex := mutex, hasResponse := false }
        returned := s.returned ++ [⟨c, call, ticket, s.shm.response.data.take call.respSize⟩] }
        c { client with phase := .idle })

section
variable {s : State C D} (e : Event C D) (mutex : RobustMutex)

theorem postWhenFree_tenure {c : C} {client : Client} (alive : s.clients c = some client)
    (elsewhere : ∀ other ticket, client.phase ≠ .waitResponse other ticket) (call : Call)
    (shutdown interrupted : Bool) :
    Tenure s e (postWhenFree { s with shm := { s.shm with mutex := mutex } } c client call
      shutdown interrupted) := by
  have acts : ∀ after call ticket, s.clients c = some after →
      after.phase ≠ .waitResponse call ticket := by
    intro after call ticket found
    obtain rfl := Option.some.inj (alive.symm.trans found)
    exact elsewhere call ticket
  unfold postWhenFree
  split
  · exact .kept mutex.unlock (.update s.clients c (by simp)) (.update _ (.inr acts))
      (.refl s.drivers)
  · rename_i free
    split
    · exact .kept mutex.unlock (.update s.clients c (by simp)) (.update _ (.inr acts))
        (.refl s.drivers)
    · rename_i running
      simp only [Bool.not_eq_true] at running
      have free : s.shm.hasRequest = false := by simpa [running] using free
      refine .posted mutex.unlock c call free alive elsewhere rfl ?_
      intro other ticket waits
      cases interrupted with
      | true => simp at waits
      | false =>
        simp only [Bool.false_eq_true, if_false, ClientPhase.waitResponse.injEq] at waits
        exact ⟨waits.1.symm, waits.2.symm⟩

theorem takeResponse_tenure {c : C} {client : Client} {call : Call} {ticket : Nat}
    (wakes : e.waiter = some c) (alive : s.clients c = some client)
    (waits : client.phase = .waitResponse call ticket) (shutdown : Bool) :
    Tenure s e (takeResponse { s with shm := { s.shm with mutex := mutex } } c client call ticket
      shutdown) := by
  unfold takeResponse
  split
  · exact .kept mutex.unlock (.refl s.clients) (.refl s e) (.refl s.drivers)
  · rename_i answered
    split
    · exact .kept mutex.unlock (.update s.clients c (by simp)) (.update _ (.inl wakes))
        (.refl s.drivers)
    · rename_i accepted
      simp only [not_or, not_not] at accepted
      obtain ⟨running, number, size⟩ := accepted
      have present : s.shm.hasResponse = true := by simpa [running] using answered
      exact .delivered mutex.unlock c wakes alive waits present number

theorem pickUp_tenure {d : D} (rested : ∀ request, s.drivers d ≠ .serving request) :
    Tenure s e (pickUp { s with shm := { s.shm with mutex := mutex } } d) := by
  unfold pickUp
  split
  · rename_i pending
    exact .pickedUp mutex.unlock d pending.1 pending.2 rested
  · exact .kept mutex.unlock (.refl s.clients) (.refl s e) (.update s.drivers d (by simp))

theorem leaveLoop_tenure {d : D} (rested : ∀ request, s.drivers d ≠ .serving request)
    (running shutdown : Bool) :
    Tenure s e (leaveLoop { s with shm := { s.shm with mutex := mutex } } d running
      shutdown) := by
  unfold leaveLoop
  split
  · exact .kept mutex.unlock (.refl s.clients) (.refl s e) (.update s.drivers d (by simp))
  · exact pickUp_tenure e mutex rested

theorem waitLoop_tenure {d : D} (rested : ∀ request, s.drivers d ≠ .serving request)
    (running shutdown : Bool) :
    Tenure s e (waitLoop { s with shm := { s.shm with mutex := mutex } } d running
      shutdown) := by
  unfold waitLoop
  split
  · exact .kept mutex.unlock (.refl s.clients) (.refl s e) (.update s.drivers d (by simp))
  · exact leaveLoop_tenure e mutex rested running shutdown

theorem waitLoop_reset {e : Event C D} (repairs : e.Repairs s) (d : D)
    (running shutdown : Bool) :
    Tenure s e (waitLoop { s with
      shm := { s.shm with mutex := mutex, hasRequest := false, hasResponse := false } } d running
      shutdown) := by
  have lowered (driver : Driver) (rests : ∀ request, driver ≠ .serving request) :
      Tenure s e (State.putDriver { s with
        shm := { s.shm with mutex := mutex.unlock, hasRequest := false, hasResponse := false } }
        d driver) :=
    .reset mutex.unlock (.inr repairs) (.refl s.clients) (.refl s e) (.update s.drivers d rests)
  unfold waitLoop leaveLoop pickUp
  split
  · exact lowered .waiting (by simp)
  · split
    · exact lowered .idle (by simp)
    · exact lowered .idle (by simp)

end

theorem next_tenure {s t : State C D} {e : Event C D} (outside : ¬ e.DiesInside)
    (taken : next s e = some t) : Tenure s e t := by
  cases e with
  | connect c pid =>
    simp only [next, Option.bind_eq_bind, Option.bind_eq_some_iff, guard_passed,
      Option.some.injEq] at taken
    obtain ⟨_, absent, rfl⟩ := taken
    refine .kept s.shm.mutex (.update s.clients c (by simp)) (.update _ (.inr ?_))
      (.refl s.drivers)
    intro client call ticket found
    simp [found] at absent
  | call c call shutdown interrupted =>
    simp only [next, Option.bind_eq_bind, Option.bind_eq_some_iff, guard_passed,
      Option.some.injEq] at taken
    obtain ⟨client, alive, _, idle, shm, locked, rfl⟩ := taken
    obtain ⟨rfl, _⟩ := ServiceShm.lockRobust_eq locked
    exact postWhenFree_tenure _ .held alive (by simp [idle]) call shutdown interrupted
  | freeWake c cause shutdown interrupted =>
    simp only [next, Option.bind_eq_bind, Option.bind_eq_some_iff] at taken
    obtain ⟨client, alive, ⟨mutex, ret⟩, acquired, taken⟩ := taken
    split at taken
    · rename_i call waits
      have elsewhere : ∀ other ticket, client.phase ≠ .waitResponse other ticket := by
        simp [waits]
      split at taken <;> obtain rfl := Option.some.inj taken
      · rename_i failed
        refine .reset _ (.inl ?_) (.update s.clients c (by simp))
          (.update _ (.inr ?_)) (.refl s.drivers)
        · simpa [Event.abandons, Event.reports, acquired] using failed
        · intro after call ticket found
          obtain rfl := Option.some.inj (alive.symm.trans found)
          exact elsewhere call ticket
      · exact postWhenFree_tenure _ mutex alive elsewhere call shutdown interrupted
    · contradiction
  | responseWake c cause shutdown =>
    simp only [next, Option.bind_eq_bind, Option.bind_eq_some_iff] at taken
    obtain ⟨client, alive, ⟨mutex, ret⟩, acquired, taken⟩ := taken
    split at taken
    · rename_i call ticket waits
      split at taken <;> obtain rfl := Option.some.inj taken
      · rename_i failed
        refine .reset _ (.inl ?_) (.update s.clients c (by simp))
          (.update _ (.inl rfl)) (.refl s.drivers)
        simpa [Event.abandons, Event.reports, acquired] using failed
      · exact takeResponse_tenure _ mutex rfl alive waits shutdown
    · contradiction
  | serviceLoop d running shutdown =>
    simp only [next, Option.bind_eq_bind, Option.bind_eq_some_iff, guard_passed,
      Option.some.injEq] at taken
    obtain ⟨_, idle, shm, locked, rfl⟩ := taken
    obtain ⟨rfl, _⟩ := ServiceShm.lockRobust_eq locked
    exact waitLoop_tenure _ .held (by simp [idle]) running shutdown
  | loopWake d cause running shutdown =>
    simp only [next, Option.bind_eq_bind, Option.bind_eq_some_iff, guard_passed] at taken
    obtain ⟨_, waiting, ⟨mutex, ret⟩, acquired, taken⟩ := taken
    split at taken
    · rename_i died
      obtain rfl := Option.some.inj taken
      have repairs : Event.Repairs s (.loopWake d cause running shutdown) :=
        ⟨trivial, by simpa [Event.reports, acquired] using died⟩
      exact waitLoop_reset _ repairs d running shutdown
    · split at taken <;> obtain rfl := Option.some.inj taken
      · exact leaveLoop_tenure _ mutex (by simp [waiting]) running shutdown
      · exact waitLoop_tenure _ mutex (by simp [waiting]) running shutdown
  | spinOnce d =>
    simp only [next, Option.bind_eq_bind, Option.bind_eq_some_iff, guard_passed,
      Option.some.injEq] at taken
    obtain ⟨_, idle, shm, locked, rfl⟩ := taken
    obtain ⟨rfl, _⟩ := ServiceShm.lockRobust_eq locked
    exact pickUp_tenure _ .held (by simp [idle])
  | complete d outcome =>
    simp only [next] at taken
    split at taken
    · rename_i request serving
      simp only [Option.bind_eq_bind, Option.bind_eq_some_iff, Option.some.injEq] at taken
      obtain ⟨shm, locked, rfl⟩ := taken
      obtain ⟨rfl, _⟩ := ServiceShm.lockRobust_eq locked
      exact .completed _ d rfl serving
    · contradiction
  | clientDies c holding leftover =>
    simp only [next, slotAfterDeath, Option.bind_eq_bind, Option.bind_eq_some_iff,
      Option.some.injEq] at taken
    obtain ⟨_, _, _, ⟨mutex, _, rfl⟩, rfl⟩ := taken
    obtain rfl : holding = false := by simpa [Event.DiesInside] using outside
    exact .kept mutex (.dies s.clients c) (.update _ (.inl rfl)) (.refl s.drivers)
  | driverDies d holding leftover =>
    simp only [next, slotAfterDeath, Option.bind_eq_bind, Option.bind_eq_some_iff,
      Option.some.injEq] at taken
    obtain ⟨_, ⟨mutex, _, rfl⟩, rfl⟩ := taken
    obtain rfl : holding = false := by simpa [Event.DiesInside] using outside
    exact .kept mutex (.refl s.clients) (.refl s _) (.update s.drivers d (by simp))

end

end ComIpc.Service
