import ComIpc.Semantics.Until
import ComIpc.Service.Once

/-! How long a request and a response stay in the slot.

A wait that fails dissolves the channel: whoever leaves it clears both flags, whatever
they stand for. The other ways to lose a request or a response are a callback that ends
late, a call that posts over the response, and a waiting call that takes it.
-/

set_option autoImplicit false

namespace ComIpc.Service

open Semantics

section
variable {C D : Type}

def State.waitsFor (s : State C D) (c : C) : Option Nat :=
  (s.clients c).bind fun client =>
    match client.phase with
    | .waitResponse _ ticket => some ticket
    | _ => none

/-- No process dies, and no wait of the server reports that one did. -/
def NoDeath (s : State C D) (e : Event C D) : Prop := ¬ e.Dies ∧ ¬ e.Repairs s

instance (s : State C D) (e : Event C D) : Decidable (NoDeath s e) :=
  inferInstanceAs (Decidable (_ ∧ _))

def Event.finishes (s : State C D) : Event C D → Option Nat
  | .complete d _ =>
    match s.drivers d with
    | .serving request => some request.ticket
    | _ => none
  | _ => none

def Event.Answers : Event C D → Prop
  | .complete _ outcome => outcome.success = true
  | _ => False

instance (e : Event C D) : Decidable e.Answers :=
  match e with
  | .complete _ outcome => inferInstanceAs (Decidable (outcome.success = true))
  | .connect _ _ | .call _ _ _ _ | .freeWake _ _ _ _ | .responseWake _ _ _ | .serviceLoop _ _ _
  | .loopWake _ _ _ _ | .spinOnce _ | .clientDies _ _ _ | .driverDies _ _ _ => isFalse id

variable [DecidableEq C] [DecidableEq D]

def Event.Posts (s : State C D) (e : Event C D) : Prop :=
  (next s e).map (fun t => t.posts.length) = some (s.posts.length + 1)

def Event.Takes (s : State C D) (e : Event C D) : Prop :=
  (next s e).map (fun t => t.returned.length) = some (s.returned.length + 1)

instance (s : State C D) (e : Event C D) : Decidable (e.Posts s) :=
  inferInstanceAs (Decidable (_ = _))

instance (s : State C D) (e : Event C D) : Decidable (e.Takes s) :=
  inferInstanceAs (Decidable (_ = _))

/-! ### The request -/

theorem posted_request {s u : State C D} {e : Event C D} (alive : NoDeath s e)
    (taken : next s e = some u) (posts : e.Posts s) :
    u.shm.hasRequest = true ∧ Stored u.posts u.shm.request.given := by
  have more : u.posts.length = s.posts.length + 1 := by
    simpa [Event.Posts, taken] using posts
  cases next_tenure (Event.outside alive.1) taken with
  | posted mutex c call _ _ _ _ _ => exact ⟨rfl, stored_post s.posts c s.shm _ _ call⟩
  | kept | reset | pickedUp | completed | delivered =>
    simp only [State.putDriver, State.putClient] at more
    omega

/-- Everything but a completion and an abandoned wait leaves a pending request alone. -/
theorem request_kept {u v : State C D} {e : Event C D} {request : Request}
    (pending : u.shm.hasRequest = true ∧ u.shm.request = request) (alive : NoDeath u e)
    (unfinished : e.finishes u = none) (together : e.abandons u = none)
    (taken : next u e = some v) : v.shm.hasRequest = true ∧ v.shm.request = request := by
  cases next_tenure (Event.outside alive.1) taken with
  | kept | pickedUp | delivered => exact pending
  | reset mutex cause _ _ _ =>
    rcases cause with abandons | repairs
    · exact absurd together abandons
    · exact absurd repairs alive.2
  | posted mutex c call free _ _ _ _ => simp [pending.1] at free
  | completed mutex d same serving =>
    subst same
    simp [Event.finishes, serving] at unfinished

/-- A stored request stays until the server has finished with that very request or some call
gives up on a failed wait, as long as no callback on another request ends meanwhile. -/
theorem stored_request_stays {s u t : State C D} {e : Event C D} (alive : NoDeath s e)
    (taken : next s e = some u) (posts : e.Posts s)
    (path : (machine C D).Before
      (fun v e => NoDeath v e ∧
        (e.finishes v = none ∨ e.finishes v = some u.shm.request.ticket))
      (fun v e => e.finishes v = some u.shm.request.ticket ∨ e.abandons v ≠ none) u t) :
    t.shm.hasRequest = true ∧ t.shm.request = u.shm.request ∧
      Stored u.posts t.shm.request.given := by
  obtain ⟨raised, stored⟩ := posted_request alive taken posts
  have stays : t.shm.hasRequest = true ∧ t.shm.request = u.shm.request := by
    refine path.kept (fun v => v.shm.hasRequest = true ∧ v.shm.request = u.shm.request) ?_
      ⟨raised, rfl⟩
    rintro v e w pending ⟨alive, own⟩ going taken
    rw [not_or, not_ne_iff] at going
    exact request_kept pending alive (own.resolve_right going.1) going.2 taken
  exact ⟨stays.1, stays.2, stays.2.symm ▸ stored⟩

theorem stored_request_stays_served :
    ∃ u t : State (Fin 2) Unit, t.drivers () = .serving u.shm.request ∧
      t.shm.hasRequest = true ∧ t.shm.request = u.shm.request ∧
      Stored u.posts t.shm.request.given := by
  obtain ⟨s, -, scene⟩ := Machine.reachable_of_check (machine (Fin 2) Unit) NoDeath rfl
    [.connect 0 100, .connect 1 101]
    (fun s => decide (((Event.call 0 (.ofByte 1) false false).Posts s) ∧
      ((next s (.call 0 (.ofByte 1) false false)).bind fun u =>
        ((machine (Fin 2) Unit).runWhen
          (fun v e => (NoDeath v e ∧
            (e.finishes v = none ∨ e.finishes v = some u.shm.request.ticket)) ∧
            ¬ (e.finishes v = some u.shm.request.ticket ∨ e.abandons v ≠ none)) u
          [.call 1 (.ofByte 2) false false, .serviceLoop () true false]).map fun t =>
            decide (t.drivers () = .serving u.shm.request)) = some true))
    (by decide +kernel)
  obtain ⟨posts, scene⟩ := of_decide_eq_true scene
  obtain ⟨u, taken, scene⟩ := Option.bind_eq_some_iff.mp scene
  obtain ⟨t, path, serving⟩ := Machine.Before.check _ _ scene
  exact ⟨u, t, of_decide_eq_true serving,
    stored_request_stays ⟨id, fun repairs => repairs.1⟩ taken posts path⟩

/-- A second client waits for the slot, times out and clears the request of the first. -/
theorem request_of_other_client_discarded :
    ¬ ∀ (s u t : State (Fin 2) Unit) (e : Event (Fin 2) Unit),
      (machine (Fin 2) Unit).ReachableWhen NoDeath s → NoDeath s e → next s e = some u →
      e.Posts s →
      (machine (Fin 2) Unit).Before NoDeath
        (fun v e => e.finishes v = some u.shm.request.ticket ∨
          (e.abandons v).bind v.waitsFor = some u.shm.request.ticket) u t →
      t.shm.hasRequest = true ∧ t.shm.request = u.shm.request := by
  intro claim
  obtain ⟨s, reach, scene⟩ := Machine.reachable_of_check (machine (Fin 2) Unit) NoDeath rfl
    [.connect 0 100, .connect 1 101]
    (fun s => decide (((Event.call 0 (.ofByte 1) false false).Posts s) ∧
      ((next s (.call 0 (.ofByte 1) false false)).bind fun u =>
        ((machine (Fin 2) Unit).runWhen
          (fun v e => NoDeath v e ∧ ¬ (e.finishes v = some u.shm.request.ticket ∨
            (e.abandons v).bind v.waitsFor = some u.shm.request.ticket)) u
          [.call 1 (.ofByte 2) false false, .freeWake 1 .timedOut false false]).map fun t =>
            decide (t.shm.hasRequest = false)) = some true))
    (by decide +kernel)
  obtain ⟨posts, scene⟩ := of_decide_eq_true scene
  obtain ⟨u, taken, scene⟩ := Option.bind_eq_some_iff.mp scene
  obtain ⟨t, path, lost⟩ := Machine.Before.check _ _ scene
  have stays := (claim s u t _ reach ⟨id, fun repairs => repairs.1⟩ taken posts path).1
  exact absurd stays (by simp [of_decide_eq_true lost])

/-! ### The response -/

def OwnNumber (clients : C → Option Client) (request : Request) : Prop :=
  ∀ c client call, clients c = some client →
    client.phase = .waitResponse call request.ticket → request.requestId = client.nextReqId

omit [DecidableEq C] [DecidableEq D] in
theorem OwnNumber.fewer {before after : C → Option Client} {request : Request}
    (own : OwnNumber before request) (fewer : FewerWaits before after) :
    OwnNumber after request :=
  fun c client call alive waits => own c client call (fewer c client call _ alive waits) waits

structure Numbered (s : State C D) : Prop where
  slot : s.shm.hasRequest = true → OwnNumber s.clients s.shm.request
  serving : ∀ d request, s.drivers d = .serving request → OwnNumber s.clients request
  slotPosted : s.shm.hasRequest = true → s.shm.request.ticket < s.posts.length
  servingPosted : ∀ d request, s.drivers d = .serving request → request.ticket < s.posts.length
  waitingPosted : ∀ c client call ticket, s.clients c = some client →
    client.phase = .waitResponse call ticket → ticket < s.posts.length

omit [DecidableEq C] [DecidableEq D] in
theorem Numbered.lowered {s : State C D} {shm : ServiceShm} {clients : C → Option Client}
    {drivers : D → Driver} {served : List Served} {returned : List (Returned C)}
    (numbered : Numbered s) (raised : shm.hasRequest = true → s.shm.hasRequest = true)
    (request : shm.request = s.shm.request) (waits : FewerWaits s.clients clients)
    (callbacks : FewerCallbacks s.drivers drivers) :
    Numbered ⟨shm, clients, drivers, s.posts, served, returned⟩ := by
  constructor
  · intro pending
    rw [request]
    exact (numbered.slot (raised pending)).fewer waits
  · exact fun d r serving => (numbered.serving d r (callbacks d r serving)).fewer waits
  · intro pending
    rw [request]
    exact numbered.slotPosted (raised pending)
  · exact fun d r serving => numbered.servingPosted d r (callbacks d r serving)
  · exact fun c client call ticket alive phase =>
      numbered.waitingPosted c client call ticket (waits c client call ticket alive phase) phase

theorem Numbered.tenure {s t : State C D} {e : Event C D} (numbered : Numbered s)
    (tenure : Tenure s e t) : Numbered t := by
  cases tenure with
  | kept mutex waits _ callbacks => exact numbered.lowered id rfl waits callbacks
  | reset mutex _ waits _ callbacks =>
    exact numbered.lowered (fun raised => absurd raised Bool.false_ne_true) rfl waits callbacks
  | @posted mutex c before after call free alive elsewhere number phase =>
    -- the new ticket is nobody else's, and the old ones are not the new one
    have old : ∀ request : Request, request.ticket < s.posts.length →
        OwnNumber s.clients request →
        OwnNumber (Function.update s.clients c (some after)) request := by
      intro request earlier own other client asked found waits
      by_cases self : other = c
      · subst self
        simp only [Function.update_self, Option.some.injEq] at found
        subst found
        have last := (phase asked request.ticket waits).2
        omega
      · rw [Function.update_of_ne self] at found
        exact own other client asked found waits
    constructor
    · intro _ other client asked found waits
      by_cases self : other = c
      · subst self
        simp only [State.putClient, Function.update_self, Option.some.injEq] at found
        subst found
        exact number.symm
      · simp only [State.putClient, Function.update_of_ne self] at found
        have earlier := numbered.waitingPosted other client asked _ found waits
        simp [State.putClient, ServiceShm.post] at earlier
    · exact fun d request serving =>
        old request (numbered.servingPosted d request serving) (numbered.serving d request serving)
    · intro _
      simp [State.putClient, ServiceShm.post]
    · intro d request serving
      have earlier := numbered.servingPosted d request serving
      simp only [State.putClient, List.length_append, List.length_singleton]
      omega
    · intro other client asked ticket found waits
      simp only [State.putClient, List.length_append, List.length_singleton]
      by_cases self : other = c
      · subst self
        simp only [State.putClient, Function.update_self, Option.some.injEq] at found
        subst found
        have last := (phase asked ticket waits).2
        omega
      · simp only [State.putClient, Function.update_of_ne self] at found
        have earlier := numbered.waitingPosted other client asked ticket found waits
        omega
  | pickedUp mutex d pending _ _ =>
    have before : Numbered { s with shm := { s.shm with mutex := mutex } } :=
      numbered.lowered id rfl (.refl s.clients) (.refl s.drivers)
    have either : ∀ other request,
        Function.update s.drivers d (.serving s.shm.request) other = .serving request →
        request = s.shm.request ∨ s.drivers other = .serving request := by
      intro other request serving
      by_cases self : other = d
      · subst self
        simp only [Function.update_self, Driver.serving.injEq] at serving
        exact .inl serving.symm
      · exact .inr (by simpa [self] using serving)
    refine { before with serving := ?_, servingPosted := ?_ }
    · intro other request serving
      rcases either other request serving with rfl | old
      · exact numbered.slot pending
      · exact numbered.serving other request old
    · intro other request serving
      rcases either other request serving with rfl | old
      · exact numbered.slotPosted pending
      · exact numbered.servingPosted other request old
  | completed mutex d _ _ =>
    exact numbered.lowered (fun raised => absurd raised Bool.false_ne_true) rfl (.refl s.clients)
      (.update s.drivers d (by simp))
  | delivered mutex c _ _ _ _ _ =>
    exact numbered.lowered id rfl (.update s.clients c (by simp)) (.refl s.drivers)

theorem reachable_numbered {s : State C D} (reach : (machine C D).ReachableWhen NoDeath s) :
    Numbered s := by
  refine reach.invariant Numbered ?_ fun s e t numbered alive taken =>
    numbered.tenure (next_tenure (Event.outside alive.1) taken)
  rintro s rfl
  constructor <;> simp [ServiceShm.init]

structure Answered (c : C) (client : Client) (response : Response) (s : State C D) : Prop where
  present : s.shm.hasResponse = true
  same : s.shm.response = response
  waiting : s.clients c = some client

theorem Answered.kept {c : C} {client : Client} {call : Call} {response : Response}
    {u v : State C D} {e : Event C D} (answered : Answered c client response u)
    (waits : client.phase = .waitResponse call response.ticket) (alive : NoDeath u e)
    (unposted : ¬ e.Posts u) (unanswered : ¬ e.Answers) (asleep : e.waiter ≠ some c)
    (untaken : ¬ e.Takes u) (together : e.abandons u = none) (taken : next u e = some v) :
    Answered c client response v := by
  cases next_tenure (Event.outside alive.1) taken with
  | kept mutex _ still _ =>
    exact ⟨answered.present, answered.same,
      still c client call _ answered.waiting waits asleep⟩
  | reset mutex cause _ _ _ =>
    rcases cause with abandons | repairs
    · exact absurd together abandons
    · exact absurd repairs alive.2
  | posted mutex other asked _ _ _ _ _ =>
    exact absurd (by simp [Event.Posts, taken, State.putClient]) unposted
  | pickedUp mutex d _ _ _ => exact ⟨answered.present, answered.same, answered.waiting⟩
  | @completed mutex d request outcome same serving =>
    subst same
    have failure : outcome.success = false := Bool.not_eq_true _ ▸ unanswered
    exact ⟨by simp [State.putDriver, ServiceShm.complete, failure, answered.present],
      by simp [State.putDriver, ServiceShm.complete, failure, answered.same], answered.waiting⟩
  | delivered mutex other _ _ _ _ _ =>
    exact absurd (by simp [Event.Takes, taken, State.putClient]) untaken

theorem Answered.read {c : C} {client : Client} {call : Call} {response : Response}
    {t v : State C D} {cause : Ret} (answered : Answered c client response t)
    (waits : client.phase = .waitResponse call response.ticket)
    (number : response.requestId = client.nextReqId)
    (size : response.dataSize.toNat = call.respSize)
    (stays : Event.abandons t (.responseWake c cause false) = none)
    (taken : next t (.responseWake c cause false) = some v) :
    v.returned =
      t.returned ++ [⟨c, call, response.ticket, response.data.take call.respSize⟩] := by
  simp only [next, answered.waiting, Option.bind_eq_bind, Option.bind_some,
    Option.bind_eq_some_iff] at taken
  obtain ⟨⟨mutex, ret⟩, acquired, taken⟩ := taken
  have fine : ret = .ok := by
    simpa [Event.abandons, Event.reports, acquired] using stays
  simp only [waits, fine, ne_eq, not_true, if_false, Option.some.injEq] at taken
  subst taken
  simp [takeResponse, answered.present, answered.same, number, size, State.putClient,
    State.unlock]

/-- A response to a waiting call stays until that call wakes, which reads it, or some call
gives up on a failed wait, as long as nobody posts, no other call takes it and no other
callback succeeds. -/
theorem stored_response_stays {s u t : State C D} {d : D} {request : Request}
    {outcome : Outcome} {c : C} {client : Client} {call : Call}
    (reach : (machine C D).ReachableWhen NoDeath s) (serving : s.drivers d = .serving request)
    (alive : s.clients c = some client)
    (waits : client.phase = .waitResponse call request.ticket) (success : outcome.success = true)
    (taken : next s (.complete d outcome) = some u)
    (path : (machine C D).Before
      (fun v e => NoDeath v e ∧ ¬ e.Posts v ∧ ¬ e.Answers ∧ (e.Takes v → e.waiter = some c))
      (fun v e => e.waiter = some c ∨ e.abandons v ≠ none) u t) :
    t.shm.hasResponse = true ∧
    t.shm.response =
      ⟨request.requestId, UInt32.ofNat outcome.respSize, outcome.data, request.ticket⟩ ∧
    t.clients c = some client ∧
    ∀ cause v, Event.abandons t (.responseWake c cause false) = none →
      next t (.responseWake c cause false) = some v →
      (UInt32.ofNat outcome.respSize).toNat = call.respSize →
      v.returned = t.returned ++ [⟨c, call, request.ticket, outcome.data.take call.respSize⟩] := by
  have number := (reachable_numbered reach).serving d request serving c client call alive waits
  have answered : Answered c client
      ⟨request.requestId, UInt32.ofNat outcome.respSize, outcome.data, request.ticket⟩ t := by
    refine path.kept (Answered c client
      ⟨request.requestId, UInt32.ofNat outcome.respSize, outcome.data, request.ticket⟩) ?_ ?_
    · rintro v e w answered ⟨alive, unposted, unanswered, own⟩ going taken
      rw [not_or, not_ne_iff] at going
      exact answered.kept waits alive unposted unanswered going.1 (fun takes =>
        going.1 (own takes)) going.2 taken
    · simp only [next, serving, Option.bind_eq_bind, Option.bind_eq_some_iff,
        Option.some.injEq] at taken
      obtain ⟨shm, locked, rfl⟩ := taken
      exact ⟨by simp [State.putDriver, State.unlock, ServiceShm.unlock, ServiceShm.complete,
        success], by simp [State.putDriver, State.unlock, ServiceShm.unlock, ServiceShm.complete,
        success], alive⟩
  refine ⟨answered.present, answered.same, answered.waiting, ?_⟩
  intro cause v stays taken size
  exact answered.read waits number size stays taken

theorem stored_response_stays_read :
    ∃ t : State (Fin 2) Unit, t.shm.hasResponse = true ∧ t.shm.response.data.take 1 = [10] ∧
      ∃ client, t.clients 0 = some client ∧
        ∀ cause v, Event.abandons t (.responseWake 0 cause false) = none →
          next t (.responseWake 0 cause false) = some v →
          v.returned = t.returned ++ [⟨0, .ofByte 1, 0, [10]⟩] := by
  obtain ⟨s, reach, scene⟩ := Machine.reachable_of_check (machine (Fin 2) Unit) NoDeath rfl
    [.connect 0 100, .call 0 (.ofByte 1) false false, .spinOnce ()]
    (fun s => decide ((s.drivers () = .serving s.shm.request ∧ s.shm.request.ticket = 0 ∧
      (s.clients 0).map Client.phase = some (.waitResponse (.ofByte 1) 0)) ∧
      ((next s (.complete () (.ofByte 10))).bind fun u =>
        ((machine (Fin 2) Unit).runWhen
          (fun v e => (NoDeath v e ∧ ¬ e.Posts v ∧ ¬ e.Answers ∧
            (e.Takes v → e.waiter = some 0)) ∧ ¬ (e.waiter = some 0 ∨ e.abandons v ≠ none)) u
          [.spinOnce (), .connect 1 101]).map fun _ => true) = some true))
    (by decide +kernel)
  obtain ⟨⟨serving, ticket, phase⟩, scene⟩ := of_decide_eq_true scene
  obtain ⟨client, alive, waits⟩ := Option.map_eq_some_iff.mp phase
  obtain ⟨u, taken, scene⟩ := Option.bind_eq_some_iff.mp scene
  obtain ⟨t, path, _⟩ := Machine.Before.check _ _ scene
  obtain ⟨present, same, waiting, read⟩ :=
    stored_response_stays reach serving alive (ticket ▸ waits) rfl taken path
  refine ⟨t, present, by rw [same]; rfl, client, waiting, fun cause v stays wakes => ?_⟩
  rw [read cause v stays wakes rfl, ticket]
  rfl

/-- A second client waits for the slot and times out between the answer and its reading. -/
theorem response_of_other_client_discarded :
    ¬ ∀ (s u t : State (Fin 2) Unit) (request : Request) (outcome : Outcome) (c : Fin 2)
      (client : Client) (call : Call),
      (machine (Fin 2) Unit).ReachableWhen NoDeath s → s.drivers () = .serving request →
      s.clients c = some client → client.phase = .waitResponse call request.ticket →
      outcome.success = true → next s (.complete () outcome) = some u →
      (machine (Fin 2) Unit).Before NoDeath (fun _ e => e.waiter = some c) u t →
      t.shm.hasResponse = true := by
  intro claim
  obtain ⟨s, reach, scene⟩ := Machine.reachable_of_check (machine (Fin 2) Unit) NoDeath rfl
    [.connect 0 100, .connect 1 101, .call 0 (.ofByte 1) false false,
      .call 1 (.ofByte 2) false false, .spinOnce ()]
    (fun s => decide ((s.drivers () = .serving s.shm.request ∧ s.shm.request.ticket = 0 ∧
      (s.clients 0).map Client.phase = some (.waitResponse (.ofByte 1) 0)) ∧
      ((next s (.complete () (.ofByte 10))).bind fun u =>
        ((machine (Fin 2) Unit).runWhen (fun v e => NoDeath v e ∧ ¬ e.waiter = some 0) u
          [.freeWake 1 .timedOut false false]).map fun t => !t.shm.hasResponse) = some true))
    (by decide +kernel)
  obtain ⟨⟨serving, ticket, phase⟩, scene⟩ := of_decide_eq_true scene
  obtain ⟨client, alive, waits⟩ := Option.map_eq_some_iff.mp phase
  obtain ⟨u, taken, scene⟩ := Option.bind_eq_some_iff.mp scene
  obtain ⟨t, path, lost⟩ := Machine.Before.check _ _ scene
  have stays := claim s u t _ _ 0 client _ reach serving alive (ticket ▸ waits) rfl taken path
  simp [stays] at lost

end

end ComIpc.Service
