import ComIpc.Service.Tenure

/-! Every request is given to the callback at most once, and never mixed with another.

`has_request` stays raised while the callback runs, so the slot alone does not say
whether its request was given already. With one driver the ghost tickets do: the
request in the slot was not completed yet, and the driver looks at the slot only after
it has completed what it took.
-/

set_option autoImplicit false

namespace ComIpc.Service

open Semantics

/-- What the callback is given: its arguments and the ghost that says whose they are. -/
structure Given where
  ticket : Nat
  data : Bytes
  dataSize : UInt32
  deriving DecidableEq, Repr

def Request.given (request : Request) : Given := ⟨request.ticket, request.data, request.dataSize⟩

def Served.given (v : Served) : Given := ⟨v.ticket, v.data, v.dataSize⟩

def Driver.given : Driver → List Given
  | .serving request => [request.given]
  | .idle | .waiting => []

/-- All runs of the callback up to now, the one that is still running last. -/
def State.given {C : Type} (s : State C Unit) : List Given :=
  s.served.map Served.given ++ (s.drivers ()).given

section
variable {C : Type}

def Stored (posts : List (Post C)) (g : Given) : Prop :=
  ∃ post, posts[g.ticket]? = some post ∧ g.dataSize.toNat = post.call.request.bytes.length ∧
    g.data.take g.dataSize.toNat = post.call.request.bytes

theorem Stored.before {posts : List (Post C)} {g : Given} (stored : Stored posts g) :
    g.ticket < posts.length := by
  obtain ⟨post, found, _⟩ := stored
  exact (List.getElem?_eq_some_iff.mp found).1

theorem Stored.append {posts : List (Post C)} {g : Given} (stored : Stored posts g)
    (more : List (Post C)) : Stored (posts ++ more) g := by
  have before := stored.before
  obtain ⟨post, found, same⟩ := stored
  exact ⟨post, by rwa [List.getElem?_append_left before], same⟩

theorem stored_post (posts : List (Post C)) (c : C) (shm : ServiceShm)
    (clientPid requestId : Int32) (call : Call) :
    Stored (posts ++ [⟨c, call⟩])
      (shm.post clientPid requestId call posts.length).request.given := by
  refine ⟨⟨c, call⟩, ?_, post_size shm clientPid requestId call posts.length,
    post_data shm clientPid requestId call posts.length⟩
  simp [ServiceShm.post, Request.given]

structure OnceEach (s : State C Unit) : Prop where
  slot : s.shm.hasRequest = true → Stored s.posts s.shm.request.given
  /-- The request in the slot may be in the callback but has not been through it. -/
  pending : s.shm.hasRequest = true → s.shm.request.ticket ∉ s.served.map Served.ticket
  once : (s.given.map Given.ticket).Nodup
  stored : ∀ g ∈ s.given, Stored s.posts g

theorem FewerCallbacks.given {before after : Unit → Driver} (fewer : FewerCallbacks before after) :
    (after ()).given.Sublist (before ()).given := by
  cases still : after () with
  | idle | waiting => exact List.nil_sublist _
  | serving request =>
    have same : before () = .serving request := fewer () request still
    exact same ▸ List.Sublist.refl _

theorem given_tickets (s : State C Unit) :
    s.given.map Given.ticket =
      s.served.map Served.ticket ++ (s.drivers ()).given.map Given.ticket := by
  simp only [State.given, List.map_append, List.map_map]
  rfl

theorem OnceEach.lowered {s : State C Unit} {shm : ServiceShm} {clients : C → Option Client}
    {drivers : Unit → Driver} {returned : List (Returned C)} (each : OnceEach s)
    (raised : shm.hasRequest = true → s.shm.hasRequest = true)
    (request : shm.request = s.shm.request) (fewer : FewerCallbacks s.drivers drivers) :
    OnceEach ⟨shm, clients, drivers, s.posts, s.served, returned⟩ := by
  have sub : (s.served.map Served.given ++ (drivers ()).given).Sublist s.given :=
    List.Sublist.append_left fewer.given _
  constructor
  · intro pending
    simpa only [request] using each.slot (raised pending)
  · intro pending
    simpa only [request] using each.pending (raised pending)
  · exact each.once.sublist (sub.map Given.ticket)
  · exact fun g member => each.stored g (sub.subset member)

variable [DecidableEq C]

theorem OnceEach.tenure {s t : State C Unit} {e : Event C Unit} (each : OnceEach s)
    (tenure : Tenure s e t) : OnceEach t := by
  cases tenure with
  | kept mutex _ _ fewer => exact each.lowered id rfl fewer
  | reset mutex _ _ _ fewer => exact each.lowered (fun raised => nomatch raised) rfl fewer
  | posted mutex c call free _ _ _ _ =>
    constructor
    · exact fun _ => stored_post s.posts c s.shm _ _ call
    · -- the new ticket is larger than every ticket that was served
      intro _ served
      obtain ⟨v, member, same⟩ := List.mem_map.mp served
      have before := (each.stored v.given (List.mem_append_left _
        (List.mem_map_of_mem member))).before
      have same : v.ticket = s.posts.length := same
      have before : v.ticket < s.posts.length := before
      omega
    · exact each.once
    · exact fun g member => (each.stored g member).append _
  | pickedUp mutex d pending _ rested =>
    obtain rfl : d = () := rfl
    have none : (s.drivers ()).given = [] := by
      cases driver : s.drivers () with
      | idle | waiting => rfl
      | serving request => exact absurd driver (rested request)
    have before : s.given = s.served.map Served.given := by rw [State.given, none, List.append_nil]
    refine { slot := each.slot, pending := each.pending, once := ?_, stored := ?_ }
    · rw [given_tickets]
      have once := each.once
      rw [given_tickets, none, List.map_nil, List.append_nil] at once
      simp only [State.putDriver, Function.update_self, Driver.given, List.map_cons, List.map_nil]
      refine List.nodup_append.mpr ⟨once, List.pairwise_singleton _ _, ?_⟩
      rintro ticket served _ slot rfl
      obtain rfl := List.mem_singleton.mp slot
      exact each.pending pending served
    · intro g member
      simp only [State.given, State.putDriver, Function.update_self, Driver.given] at member
      rcases List.mem_append.mp member with old | new
      · exact each.stored g (before ▸ old)
      · exact List.mem_singleton.mp new ▸ each.slot pending
  | @completed mutex d request outcome same serving =>
    obtain rfl : d = () := rfl
    -- what was being given has been given: the history is the same list
    have given : State.given (State.putDriver { s with
        shm := { s.shm.complete request outcome with mutex := mutex }
        served := s.served ++ [⟨request.ticket, request.data, request.dataSize, outcome⟩] }
        () .idle) = s.given := by
      simp [State.given, State.putDriver, Driver.given, serving, Served.given, Request.given]
    refine ⟨fun raised => (nomatch raised), fun raised => (nomatch raised), ?_, ?_⟩
    · exact given ▸ each.once
    · exact fun g member => each.stored g (given ▸ member)
  | delivered mutex c _ _ _ _ _ => exact each.lowered id rfl (.refl s.drivers)

/-- Over any run without a death, every request is given to the callback at most once, with
the bytes and the size of one post. -/
theorem given_at_most_once {s : State C Unit}
    (reach : (machine C Unit).ReachableWhen (fun _ e => ¬ e.Dies) s) :
    (s.given.map Given.ticket).Nodup ∧ ∀ g ∈ s.given, Stored s.posts g := by
  have each : OnceEach s := by
    refine reach.invariant OnceEach ?_ fun s e t each alive taken =>
      each.tenure (next_tenure (Event.outside alive) taken)
    rintro s rfl
    constructor <;> simp [ServiceShm.init, State.given, Driver.given]
  exact ⟨each.once, each.stored⟩

/-- The callback outlives its call, its completion wipes the next request, and a third is given. -/
theorem given_at_most_once_abandoned :
    ∃ s : State (Fin 2) Unit, s.given.map Given.ticket = [0, 2] ∧
      (s.given.map Given.ticket).Nodup ∧ ∀ g ∈ s.given, Stored s.posts g := by
  obtain ⟨s, reach, both⟩ := Machine.reachable_of_check (machine (Fin 2) Unit)
    (fun _ e => ¬ e.Dies) rfl
    [.connect 0 100, .connect 1 101, .call 0 (.ofByte 1) false false, .spinOnce (),
      .responseWake 0 .timedOut false, .call 1 (.ofByte 2) false false,
      .complete () (.ofByte 10), .call 0 (.ofByte 3) false false, .spinOnce ()]
    (fun s => decide (s.given.map Given.ticket = [0, 2])) (by decide +kernel)
  exact ⟨s, of_decide_eq_true both, given_at_most_once reach⟩

end

end ComIpc.Service
