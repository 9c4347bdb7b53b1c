import ComIpc.Service.Change

/-! Whose answer a call returns.

The slot carries the number that the poster's own counter gave its request, and a
response is matched by that number alone. Numbers of different clients coincide, so
the invariant has to follow tickets: it survives as long as no callback succeeds
while another call waits under the same number.
-/

set_option autoImplicit false

namespace ComIpc.Service

open Semantics

section
variable {C : Type}

def Carries (posts : List (Post C)) (ticket : Nat) (data : Bytes) (dataSize : UInt32) : Prop :=
  ∃ post, posts[ticket]? = some post ∧ data.take dataSize.toNat = post.call.request.bytes

/-- A returned response holds what a successful run of the callback produced from the very
request of this call. -/
def OwnAnswer (posts : List (Post C)) (served : List Served) (r : Returned C) : Prop :=
  posts[r.ticket]? = some ⟨r.client, r.call⟩ ∧
    ∃ v ∈ served, v.ticket = r.ticket ∧ v.data.take v.dataSize.toNat = r.call.request.bytes ∧
      v.outcome.success = true ∧ r.response = v.outcome.data.take r.call.respSize

theorem posts_append {posts : List (Post C)} {ticket : Nat} {post : Post C}
    (found : posts[ticket]? = some post) (more : List (Post C)) :
    (posts ++ more)[ticket]? = some post := by
  rwa [List.getElem?_append_left (List.getElem?_eq_some_iff.mp found).1]

theorem Carries.append {posts : List (Post C)} {ticket : Nat} {data : Bytes} {dataSize : UInt32}
    (carries : Carries posts ticket data dataSize) (more : List (Post C)) :
    Carries (posts ++ more) ticket data dataSize := by
  obtain ⟨post, found, same⟩ := carries
  exact ⟨post, posts_append found more, same⟩

theorem OwnAnswer.posted {posts : List (Post C)} {served : List Served} {r : Returned C}
    (own : OwnAnswer posts served r) (more : List (Post C)) :
    OwnAnswer (posts ++ more) served r :=
  ⟨posts_append own.1 more, own.2⟩

theorem OwnAnswer.served {posts : List (Post C)} {served : List Served} {r : Returned C}
    (own : OwnAnswer posts served r) (more : List Served) :
    OwnAnswer posts (served ++ more) r := by
  obtain ⟨found, v, member, rest⟩ := own
  exact ⟨found, v, List.mem_append_left more member, rest⟩

end

section
variable {C D : Type}

-- `owner` is the part that needs the condition on runs: without it a late completion puts
-- an old ticket into the slot under a number that somebody else waits for.
structure Attributed (s : State C D) : Prop where
  request : s.shm.hasRequest = true →
    Carries s.posts s.shm.request.ticket s.shm.request.data s.shm.request.dataSize
  serving : ∀ d request, s.drivers d = .serving request →
    Carries s.posts request.ticket request.data request.dataSize
  waiting : ∀ c client call ticket, s.clients c = some client →
    client.phase = .waitResponse call ticket → s.posts[ticket]? = some ⟨c, call⟩
  served : ∀ v ∈ s.served, Carries s.posts v.ticket v.data v.dataSize
  response : s.shm.hasResponse = true → ∃ v ∈ s.served, v.ticket = s.shm.response.ticket ∧
    v.outcome.success = true ∧ s.shm.response.data = v.outcome.data
  owner : s.shm.hasResponse = true → ∀ c client call ticket, s.clients c = some client →
    client.phase = .waitResponse call ticket → client.nextReqId = s.shm.response.requestId →
    ticket = s.shm.response.ticket
  returned : ∀ r ∈ s.returned, OwnAnswer s.posts s.served r

theorem Attributed.quiet {s : State C D} {shm : ServiceShm} {clients : C → Option Client}
    {drivers : D → Driver} (attributed : Attributed s) (lowered : Lowered s.shm shm)
    (waits : FewerWaits s.clients clients) (callbacks : FewerCallbacks s.drivers drivers) :
    Attributed { s with shm := shm, clients := clients, drivers := drivers } where
  request := by
    intro raised
    simpa only [lowered.request] using attributed.request (lowered.hasRequest raised)
  serving := fun d request serving => attributed.serving d request (callbacks d request serving)
  waiting := fun c client call ticket found phase =>
    attributed.waiting c client call ticket (waits c client call ticket found phase) phase
  served := attributed.served
  response := by
    intro raised
    simpa only [lowered.response] using attributed.response (lowered.hasResponse raised)
  owner := by
    intro raised c client call ticket found phase
    simpa only [lowered.response] using attributed.owner (lowered.hasResponse raised) c client
      call ticket (waits c client call ticket found phase) phase
  returned := attributed.returned

theorem Attributed.posted [DecidableEq C] {s : State C D} {shm : ServiceShm} {c : C}
    {client : Client} {call : Call} (attributed : Attributed s) (empty : shm.hasResponse = false)
    (ticket : shm.request.ticket = s.posts.length)
    (data : shm.request.data.take shm.request.dataSize.toNat = call.request.bytes)
    (phase : ∀ other ticket, client.phase = .waitResponse other ticket →
      other = call ∧ ticket = s.posts.length) :
    Attributed (State.putClient { s with shm := shm, posts := s.posts ++ [⟨c, call⟩] }
      c client) where
  request := fun _ => ⟨⟨c, call⟩, by simp [State.putClient, ticket], data⟩
  serving := fun d request serving => (attributed.serving d request serving).append _
  waiting := by
    intro other waiter asked number found waits
    by_cases self : other = c
    · subst self
      simp only [State.putClient, Function.update_self, Option.some.injEq] at found
      obtain ⟨rfl, rfl⟩ := phase asked number (found ▸ waits)
      simp [State.putClient]
    · simp only [State.putClient, Function.update_of_ne self] at found
      exact posts_append (attributed.waiting other waiter asked number found waits) _
  served := fun v member => (attributed.served v member).append _
  response := fun raised => absurd raised (by simp [State.putClient, empty])
  owner := fun raised => absurd raised (by simp [State.putClient, empty])
  returned := fun r member => (attributed.returned r member).posted _

theorem Attributed.pickedUp [DecidableEq D] {s : State C D} {shm : ServiceShm}
    (attributed : Attributed s) (d : D) (pending : s.shm.hasRequest = true)
    (lowered : Lowered s.shm shm) :
    Attributed (State.putDriver { s with shm := shm } d (.serving s.shm.request)) := by
  have before := attributed.quiet lowered (.refl s.clients) (.refl s.drivers)
  refine { before with serving := ?_ }
  intro other request serving
  by_cases self : other = d
  · subst self
    simp only [State.putDriver, Function.update_self, Driver.serving.injEq] at serving
    exact serving ▸ attributed.request pending
  · simp only [State.putDriver, Function.update_of_ne self] at serving
    exact attributed.serving other request serving

theorem Attributed.completed [DecidableEq D] {s : State C D} {d : D} {request : Request}
    {outcome : Outcome} (attributed : Attributed s) (mutex : RobustMutex)
    (serving : s.drivers d = .serving request)
    (unshared : outcome.success = true → Unshared s request) :
    Attributed (State.putDriver { s with
      shm := { s.shm.complete request outcome with mutex := mutex }
      served := s.served ++ [⟨request.ticket, request.data, request.dataSize, outcome⟩] }
      d .idle) where
  request := fun raised => nomatch raised
  serving := by
    intro other waiting still
    have before := FewerCallbacks.update s.drivers d (by simp) other waiting still
    exact attributed.serving other waiting before
  waiting := attributed.waiting
  served := by
    intro v member
    rcases List.mem_append.mp member with old | new
    · exact attributed.served v old
    · obtain rfl := List.mem_singleton.mp new
      exact attributed.serving d request serving
  response := by
    intro raised
    cases success : outcome.success with
    | true =>
      refine ⟨_, List.mem_append_right _ (List.mem_singleton_self _), ?_, success, ?_⟩ <;>
        simp [State.putDriver, ServiceShm.complete, success]
    | false =>
      simp only [State.putDriver, ServiceShm.complete, success, Bool.or_false] at raised
      obtain ⟨v, member, rest⟩ := attributed.response raised
      refine ⟨v, List.mem_append_left _ member, ?_⟩
      simpa [State.putDriver, ServiceShm.complete, success] using rest
  owner := by
    intro raised c client call ticket found waits number
    -- after a failure the slot still holds the response that was there, with its owner
    cases success : outcome.success with
    | true =>
      have awaited : (client.nextReqId, ticket) ∈ (s.clients c).bind Client.awaits := by
        have found : s.clients c = some client := found
        simp [found, Client.awaits, waits]
      simp only [State.putDriver, ServiceShm.complete, success, if_true] at number ⊢
      exact unshared success c _ awaited number
    | false =>
      simp only [State.putDriver, ServiceShm.complete, success, Bool.or_false] at raised
      simp only [State.putDriver, ServiceShm.complete, success] at number ⊢
      exact attributed.owner raised c client call ticket found waits number
  returned := fun r member => (attributed.returned r member).served _

theorem Attributed.delivered [DecidableEq C] {s : State C D} {shm : ServiceShm} {c : C}
    {client : Client} {call : Call} {ticket : Nat} (attributed : Attributed s)
    (found : s.clients c = some client)
    (waits : client.phase = .waitResponse call ticket) (present : s.shm.hasResponse = true)
    (number : s.shm.response.requestId = client.nextReqId) (lowered : Lowered s.shm shm) :
    Attributed (State.putClient { s with
      shm := shm
      returned := s.returned ++ [⟨c, call, ticket, s.shm.response.data.take call.respSize⟩] }
      c { client with phase := .idle }) := by
  have idle : ∀ other number,
      ({ client with phase := .idle } : Client).phase ≠ .waitResponse other number := by simp
  have after := attributed.quiet lowered (.update s.clients c idle) (.refl s.drivers)
  refine { after with returned := ?_ }
  intro r member
  rcases List.mem_append.mp member with old | new
  · exact attributed.returned r old
  · obtain rfl := List.mem_singleton.mp new
    have own := attributed.waiting c client call ticket found waits
    obtain ⟨v, served, same, success, data⟩ := attributed.response present
    rw [← attributed.owner present c client call ticket found waits number.symm] at same
    obtain ⟨post, posted, bytes⟩ := attributed.served v served
    rw [same, own] at posted
    obtain rfl := Option.some.inj posted
    exact ⟨own, v, served, same, bytes, success, by rw [data]⟩

variable [DecidableEq C] [DecidableEq D]

theorem Attributed.change {s t : State C D} (attributed : Attributed s) (change : Change s t) :
    Attributed t := by
  cases change with
  | quiet lowered waits callbacks => exact attributed.quiet lowered waits callbacks
  | posted c client call empty ticket data phase =>
    exact attributed.posted empty ticket data phase
  | pickedUp d pending lowered => exact attributed.pickedUp d pending lowered
  | completed d mutex outcome serving unshared =>
    exact attributed.completed mutex serving unshared
  | delivered c found waits present number lowered _ =>
    exact attributed.delivered found waits present number lowered

theorem reachable_attributed {s : State C D}
    (reach : (machine C D).ReachableWhen Unambiguous s) : Attributed s := by
  refine reach.invariant Attributed ?_ fun s e t attributed ok taken =>
    attributed.change (next_change ok taken)
  rintro s rfl
  constructor <;> simp [ServiceShm.init]

/-- Every call that returns true returns the answer to its own request. -/
theorem returns_own_answer {s : State C D}
    (reach : (machine C D).ReachableWhen Unambiguous s) :
    ∀ r ∈ s.returned, OwnAnswer s.posts s.served r :=
  (reachable_attributed reach).returned

end

theorem returns_own_answer_in_turn :
    ∃ s : State (Fin 2) Unit, s.returned.map Returned.response = [[10], [20]] ∧
      ∀ r ∈ s.returned, OwnAnswer s.posts s.served r := by
  obtain ⟨s, reach, both⟩ := Machine.reachable_of_check (machine (Fin 2) Unit) Unambiguous rfl
    [.connect 0 100, .connect 1 101,
      .call 0 (.ofByte 1) false false, .serviceLoop () true false, .complete () (.ofByte 10),
      .responseWake 0 .ok false,
      .call 1 (.ofByte 2) false false, .spinOnce (), .complete () (.ofByte 20),
      .responseWake 1 .ok false]
    (fun s => decide (s.returned.map Returned.response = [[10], [20]])) (by decide +kernel)
  exact ⟨s, of_decide_eq_true both, returns_own_answer reach⟩

/-- The first client times out while the callback runs for it; the second one posts under
the same number and is given the answer to the first one's request. -/
theorem answer_of_other_client :
    ¬ ∀ s : State Nat Unit, (machine Nat Unit).Reachable s →
      ∀ r ∈ s.returned, OwnAnswer s.posts s.served r := by
  intro claim
  obtain ⟨s, reach, wrong⟩ := Machine.reachable_of_check (machine Nat Unit) (fun _ _ => True) rfl
    [.connect 0 100, .connect 1 101,
      .call 0 (.ofByte 1) false false, .serviceLoop () true false,
      .responseWake 0 .timedOut false, .call 1 (.ofByte 2) false false,
      .complete () (.ofByte 10), .responseWake 1 .ok false]
    (fun s => decide (s.returned = [⟨1, .ofByte 2, 1, [10]⟩] ∧
      s.served.map Served.ticket = [0])) (by decide +kernel)
  obtain ⟨returned, served⟩ := of_decide_eq_true wrong
  obtain ⟨_, v, member, ticket, _⟩ := claim s reach _ (returned ▸ List.mem_singleton_self _)
  have answered := List.mem_map_of_mem (f := Served.ticket) member
  rw [served, List.mem_singleton, ticket] at answered
  exact absurd answered (by decide)

end ComIpc.Service
