import ComIpc.Semantics.Refinement
import ComIpc.Service.Wakeups

/-! A client and a server that have the service to themselves.

Neither dies, shuts down or lets a deadline pass, a wait ends only for a broadcast, and the
callback succeeds with an answer of the size that is asked for. Then a call is never stuck,
and each takes at most five steps: to fall asleep, post, pick up, answer and return.
-/

set_option autoImplicit false

namespace ComIpc.Service

open Semantics SystemManager

section
variable {C D : Type}

/-- `sizeof(TResp)` of the call whose response a client waits for. -/
def Client.expects (client : Client) : Option Nat :=
  match client.phase with
  | .waitResponse call _ => some call.respSize
  | .idle | .waitFree _ => none

/-- The steps of one client and one thread of the server in the best of cases. -/
def Cooperates [DecidableEq C] [DecidableEq D] (c : C) (d : D)
    (w : Watched (State C D) (D ⊕ C)) : Event C D → Prop
  | .connect x _ => x = c
  | .call x _ shutdown interrupted => x = c ∧ shutdown = false ∧ interrupted = false
  | .responseWake x cause shutdown =>
    x = c ∧ cause = .ok ∧ shutdown = false ∧ w.notified (.inr c) = true
  | .serviceLoop x running shutdown => x = d ∧ running = true ∧ shutdown = false
  | .loopWake x cause running shutdown =>
    x = d ∧ cause = .ok ∧ running = true ∧ shutdown = false ∧ w.notified (.inl d) = true
  | .complete x outcome => x = d ∧ outcome.success = true ∧ ∀ client ∈ w.state.clients c,
    ∀ size ∈ client.expects, (UInt32.ofNat outcome.respSize).toNat = size
  | .freeWake _ _ _ _ | .spinOnce _ | .clientDies _ _ _ | .driverDies _ _ _ => False

instance [DecidableEq C] [DecidableEq D] (c : C) (d : D) (w : Watched (State C D) (D ⊕ C))
    (e : Event C D) : Decidable (Cooperates c d w e) :=
  match e with
  | .connect _ _ => inferInstanceAs (Decidable (_ = _))
  | .call _ _ _ _ => inferInstanceAs (Decidable (_ ∧ _))
  | .responseWake _ _ _ => inferInstanceAs (Decidable (_ ∧ _))
  | .serviceLoop _ _ _ => inferInstanceAs (Decidable (_ ∧ _))
  | .loopWake _ _ _ _ => inferInstanceAs (Decidable (_ ∧ _))
  | .complete _ _ => inferInstanceAs (Decidable (_ ∧ _ ∧ ∀ client ∈ _, ∀ size ∈ _, _))
  | .freeWake _ _ _ _ | .spinOnce _ | .clientDies _ _ _ | .driverDies _ _ _ => isFalse id

inductive Rests (d : D) (w : Watched (State C D) (D ⊕ C)) : Nat → Prop where
  | awake : w.state.drivers d = .idle → Rests d w 0
  | asleep : w.state.drivers d = .waiting → w.notified (.inl d) = false → Rests d w 1

/-- How far the client and the server have come with the call, if there is one. -/
inductive Stage (c : C) (d : D) (w : Watched (State C D) (D ⊕ C)) : Nat → Nat → Prop where
  | absent {place : Nat} : w.state.clients c = none → w.state.shm.hasRequest = false →
      w.state.shm.hasResponse = false → Rests d w place → Stage c d w 0 place
  | ready {client : Client} {place : Nat} : w.state.clients c = some client →
      client.phase = .idle → w.state.shm.hasRequest = false →
      w.state.shm.hasResponse = false → Rests d w place → Stage c d w 0 (1 + place)
  | posted {client : Client} {call : Call} {ticket : Nat} : w.state.clients c = some client →
      client.phase = .waitResponse call ticket → w.state.shm.hasRequest = true →
      w.state.shm.hasResponse = false → w.state.shm.request.requestId = client.nextReqId →
      w.notified (.inr c) = false →
      w.state.drivers d = .idle ∨ w.state.drivers d = .waiting → Stage c d w 1 3
  | taken {client : Client} {call : Call} {ticket : Nat} {request : Request} :
      w.state.clients c = some client → client.phase = .waitResponse call ticket →
      w.state.shm.hasRequest = true → w.state.shm.hasResponse = false →
      request.requestId = client.nextReqId → w.notified (.inr c) = false →
      w.state.drivers d = .serving request → Stage c d w 1 4
  | answered {client : Client} {call : Call} {ticket place : Nat} :
      w.state.clients c = some client → client.phase = .waitResponse call ticket →
      w.state.shm.hasRequest = false → w.state.shm.hasResponse = true →
      w.state.shm.response.requestId = client.nextReqId →
      w.state.shm.response.dataSize.toNat = call.respSize →
      Rests d w place → Stage c d w 1 (5 + place)

/-- The work done, counted in steps: five for each call that has returned. -/
structure Standing (c : C) (d : D) (w : Watched (State C D) (D ⊕ C)) (work : Nat) : Prop where
  mutex : w.state.shm.mutex = .unlocked
  stage : ∃ unanswered place, Stage c d w unanswered place ∧
    w.state.posts.length = w.state.returned.length + unanswered ∧
    work = 5 * w.state.returned.length + place

variable {c : C} {d : D} {w v : Watched (State C D) (D ⊕ C)} {e : Event C D}

theorem Rests.not_serving {place : Nat} (rests : Rests d w place) (request : Request) :
    w.state.drivers d ≠ .serving request := by
  cases rests with
  | awake idle => simp [idle]
  | asleep waiting _ => simp [waiting]

theorem Rests.not_woken {place : Nat} (rests : Rests d w place)
    (waiting : w.state.drivers d = .waiting) : w.notified (.inl d) = false := by
  cases rests with
  | awake idle => exact nomatch idle.symm.trans waiting
  | asleep _ silent => exact silent

theorem Rests.place_le {place : Nat} (rests : Rests d w place) : place ≤ 1 := by
  cases rests with
  | awake => exact Nat.zero_le 1
  | asleep => exact Nat.le_refl 1

theorem Rests.awake_place {place : Nat} (rests : Rests d w place)
    (idle : w.state.drivers d = .idle) : place = 0 := by
  cases rests with
  | awake _ => rfl
  | asleep waiting _ => exact nomatch idle.symm.trans waiting

/-! ### The functions of the machine, in these runs -/

def State.locked (s : State C D) : State C D :=
  { s with shm := { s.shm with mutex := .held } }

theorem lockRobust_free {shm : ServiceShm} (free : shm.mutex = .unlocked) :
    shm.lockRobust = some { shm with mutex := .held } := by
  rw [ServiceShm.lockRobust, free]
  rfl

theorem reacquire_free {mutex : RobustMutex} (free : mutex = .unlocked) :
    mutex.reacquire .ok = some (.held, .ok) := by
  rw [free]
  rfl

theorem postWhenFree_posts [DecidableEq C] {s : State C D} (free : s.shm.hasRequest = false)
    (c : C) (client : Client) (call : Call) : postWhenFree s c client call false false =
      State.putClient { s with
        shm := (s.shm.post client.pid (client.nextReqId + 1) call s.posts.length).unlock
        posts := s.posts ++ [⟨c, call⟩] } c { client with
          nextReqId := client.nextReqId + 1
          phase := .waitResponse call s.posts.length } := by
  simp [postWhenFree, free, State.unlock]

theorem takeResponse_returns [DecidableEq C] {s : State C D} (answered : s.shm.hasResponse = true)
    {client : Client} {call : Call} (same : s.shm.response.requestId = client.nextReqId)
    (size : s.shm.response.dataSize.toNat = call.respSize) (c : C) (ticket : Nat) :
    takeResponse s c client call ticket false = State.putClient { s with
      shm := { s.shm with hasResponse := false }.unlock
      returned := s.returned ++ [⟨c, call, ticket, s.shm.response.data.take call.respSize⟩] } c
        { client with phase := .idle } := by
  simp [takeResponse, answered, same, size, State.unlock]

theorem waitLoop_sleeps [DecidableEq D] {s : State C D} (empty : s.shm.hasRequest = false)
    (d : D) : waitLoop s d true false = s.unlock.putDriver d .waiting := by
  simp [waitLoop, empty]

theorem waitLoop_picks [DecidableEq D] {s : State C D} (pending : s.shm.hasRequest = true)
    (room : s.shm.hasResponse = false) (d : D) :
    waitLoop s d true false = s.unlock.putDriver d (.serving s.shm.request) := by
  simp [waitLoop, leaveLoop, pickUp, pending, room]

/-! ### One step -/

variable [DecidableEq C] [DecidableEq D]

theorem notified_server (moved : (channel.watch (machine C D)).next w e = some v) :
    v.notified (.inl d) =
      if e.driver = some d then false else w.notified (.inl d) || decide (e.Posts w.state) := by
  rw [(Monitor.watch_next moved).2 (.inl d)]
  simp only [channel, Monitor.both_acts_left]
  rfl

theorem notified_client (moved : (channel.watch (machine C D)).next w e = some v) :
    v.notified (.inr c) =
      if e.client = some c then false else w.notified (.inr c) || e.completes := by
  have own : channel.acts e = some (.inr c) ↔ e.client = some c :=
    Monitor.both_acts_right (one_party e)
  rw [(Monitor.watch_next moved).2 (.inr c)]
  simp only [own]
  rfl

theorem Rests.kept {place : Nat} (rests : Rests d w place)
    (moved : (channel.watch (machine C D)).next w e = some v)
    (drivers : v.state.drivers = w.state.drivers) (posts : v.state.posts = w.state.posts)
    (other : e.driver = none) : Rests d v place := by
  cases rests with
  | awake idle => exact .awake (drivers ▸ idle)
  | asleep waiting silent =>
    apply Rests.asleep (drivers ▸ waiting)
    have taken : next w.state e = some v.state := (Monitor.watch_next moved).1
    have quiet : ¬ e.Posts w.state := by
      simp [Event.Posts, taken, posts]
    simp [notified_server moved, other, silent, quiet]

theorem Standing.connect {work : Nat} {pid : Int32} (standing : Standing c d w work)
    (moved : (channel.watch (machine C D)).next w (.connect c pid) = some v) :
    ∃ more, work < more ∧ Standing c d v more := by
  obtain ⟨mutex, _, place, stage, posts, rfl⟩ := standing
  have taken : next w.state (.connect c pid) = some v.state := (Monitor.watch_next moved).1
  simp only [next, Option.bind_eq_bind, Option.bind_eq_some_iff, guard_passed,
    Option.some.injEq] at taken
  obtain ⟨_, fresh, same⟩ := taken
  cases stage with
  | absent absent empty room rests =>
    have alive : v.state.clients c = some ⟨pid, 0, .idle⟩ := by
      rw [← same, putClient_self]
    have after : Stage c d v 0 (1 + place) := by
      apply Stage.ready alive rfl
      · exact same ▸ empty
      · exact same ▸ room
      · exact rests.kept moved (same ▸ rfl) (same ▸ rfl) rfl
    refine ⟨_, ?_, same ▸ mutex, 0, _, after, same ▸ posts, rfl⟩
    rw [← same]
    simp only [State.putClient]
    omega
  | ready alive | posted alive | taken alive | answered alive => simp [alive] at fresh

theorem Standing.call {work : Nat} {call : Call} (standing : Standing c d w work)
    (moved : (channel.watch (machine C D)).next w (.call c call false false) = some v) :
    ∃ more, work < more ∧ Standing c d v more := by
  obtain ⟨mutex, _, place, stage, posts, rfl⟩ := standing
  have taken : next w.state (.call c call false false) = some v.state :=
    (Monitor.watch_next moved).1
  simp only [next, Option.bind_eq_bind, Option.bind_eq_some_iff, guard_passed,
    Option.some.injEq, lockRobust_free mutex, exists_eq_left'] at taken
  obtain ⟨client, alive, _, idle, same⟩ := taken
  have silent : v.notified (.inr c) = false := by
    rw [notified_client moved]
    exact if_pos rfl
  cases stage with
  | absent absent => simp [absent] at alive
  | ready _ _ empty room rests =>
    have same : postWhenFree w.state.locked c client call false false = v.state := same
    rw [postWhenFree_posts (s := w.state.locked) empty] at same
    have posted : v.state.clients c = some { client with
        nextReqId := client.nextReqId + 1
        phase := .waitResponse call w.state.posts.length } := by
      rw [← same, putClient_self]
      rfl
    have after : Stage c d v 1 3 := by
      apply Stage.posted posted rfl
      · exact same ▸ rfl
      · exact same ▸ rfl
      · exact same ▸ rfl
      · exact silent
      · rw [← same]
        cases rests with
        | awake idle => exact .inl idle
        | asleep waiting _ => exact .inr waiting
    refine ⟨_, ?_, same ▸ rfl, 1, _, after, ?_, rfl⟩
    · rw [← same]
      have := rests.place_le
      simp only [State.putClient, State.locked]
      omega
    · rw [← same]
      simp only [State.putClient, State.locked, List.length_append, List.length_singleton]
      omega
  | posted there waits | taken there waits | answered there waits =>
    obtain rfl := Option.some.inj (alive.symm.trans there)
    simp [idle] at waits

theorem Standing.responseWake {work : Nat} (standing : Standing c d w work)
    (woken : w.notified (.inr c) = true)
    (moved : (channel.watch (machine C D)).next w (.responseWake c .ok false) = some v) :
    ∃ more, work < more ∧ Standing c d v more := by
  obtain ⟨mutex, _, place, stage, posts, rfl⟩ := standing
  have taken : next w.state (.responseWake c .ok false) = some v.state :=
    (Monitor.watch_next moved).1
  simp only [next, Option.bind_eq_bind, Option.bind_eq_some_iff, reacquire_free mutex,
    Option.some.injEq, exists_eq_left', ne_eq, not_true_eq_false, if_false] at taken
  obtain ⟨client, alive, taken⟩ := taken
  split at taken
  · rename_i call ticket waits
    have same : takeResponse w.state.locked c client call ticket false = v.state :=
      Option.some.inj taken
    cases stage with
    | absent absent => simp [absent] at alive
    | ready there idle =>
      obtain rfl := Option.some.inj (alive.symm.trans there)
      simp [idle] at waits
    | posted _ _ _ _ _ silent | taken _ _ _ _ _ silent =>
      exact absurd (silent.symm.trans woken) Bool.false_ne_true
    | answered there there_waits empty answered number size rests =>
      obtain rfl := Option.some.inj (alive.symm.trans there)
      obtain ⟨rfl, rfl⟩ := ClientPhase.waitResponse.inj (waits.symm.trans there_waits)
      rw [takeResponse_returns (s := w.state.locked) answered number size] at same
      have kept := rests.kept moved (same ▸ rfl) (same ▸ rfl) rfl
      have returned : v.state.clients c = some { client with phase := .idle } := by
        rw [← same, putClient_self]
      have after := Stage.ready returned rfl (same ▸ empty) (same ▸ rfl) kept
      refine ⟨_, ?_, same ▸ rfl, 0, _, after, ?_, rfl⟩
      · rw [← same]
        simp only [State.putClient, State.locked, List.length_append, List.length_singleton]
        omega
      · rw [← same]
        simp only [State.putClient, State.locked, List.length_append, List.length_singleton]
        exact posts
  · contradiction

theorem sleeps (waiting : v.state.drivers d = .waiting) (own : e.driver = some d)
    (moved : (channel.watch (machine C D)).next w e = some v) : Rests d v 1 := by
  apply Rests.asleep waiting
  rw [notified_server moved, if_pos own]

theorem Standing.loops {work : Nat} (standing : Standing c d w work) (own : e.driver = some d)
    (silent : e.client = none) (ends : e.completes = false)
    (moved : (channel.watch (machine C D)).next w e = some v)
    (up : w.state.drivers d = .idle ∨
      w.state.drivers d = .waiting ∧ w.notified (.inl d) = true)
    (same : waitLoop w.state.locked d true false = v.state) :
    ∃ more, work < more ∧ Standing c d v more := by
  obtain ⟨mutex, _, place, stage, posts, rfl⟩ := standing
  -- only a thread that is awake finds the slot empty
  have awake : ∀ {n}, Rests d w n → n = 0 := by
    intro n rests
    rcases up with idle | ⟨waiting, woken⟩
    · exact rests.awake_place idle
    · exact absurd ((rests.not_woken waiting).symm.trans woken) Bool.false_ne_true
  have unmoved : ∀ request, w.state.drivers d ≠ .serving request := by
    rintro request serving
    rcases up with idle | ⟨waiting, _⟩
    · simp [idle] at serving
    · simp [waiting] at serving
  cases stage with
  | absent absent empty room rests =>
    obtain rfl := awake rests
    rw [waitLoop_sleeps (s := w.state.locked) empty] at same
    have after := Stage.absent (c := c) (w := v) (same ▸ absent) (same ▸ empty) (same ▸ room)
      (sleeps (by rw [← same]; exact Function.update_self _ _ _) own moved)
    refine ⟨_, ?_, same ▸ rfl, 0, _, after, same ▸ posts, rfl⟩
    rw [← same]
    exact Nat.lt_succ_self _
  | ready alive idle empty room rests =>
    obtain rfl := awake rests
    rw [waitLoop_sleeps (s := w.state.locked) empty] at same
    have after := Stage.ready (c := c) (w := v) (same ▸ alive) idle (same ▸ empty) (same ▸ room)
      (sleeps (by rw [← same]; exact Function.update_self _ _ _) own moved)
    refine ⟨_, ?_, same ▸ rfl, 0, _, after, same ▸ posts, rfl⟩
    rw [← same]
    exact Nat.lt_succ_self _
  | answered alive waits empty answered number size rests =>
    obtain rfl := awake rests
    rw [waitLoop_sleeps (s := w.state.locked) empty] at same
    have after := Stage.answered (c := c) (w := v) (same ▸ alive) waits (same ▸ empty)
      (same ▸ answered) (same ▸ number) (same ▸ size)
      (sleeps (by rw [← same]; exact Function.update_self _ _ _) own moved)
    refine ⟨_, ?_, same ▸ rfl, 1, _, after, same ▸ posts, rfl⟩
    rw [← same]
    exact Nat.lt_succ_self _
  | posted alive waits pending room number quiet _ =>
    rw [waitLoop_picks (s := w.state.locked) pending room] at same
    have after := Stage.taken (c := c) (d := d) (w := v) (same ▸ alive) waits (same ▸ pending)
      (same ▸ room) number (by simp [notified_client moved, silent, quiet, ends])
      (by rw [← same]; exact Function.update_self _ _ _)
    refine ⟨_, ?_, same ▸ rfl, 1, _, after, same ▸ posts, rfl⟩
    rw [← same]
    exact Nat.lt_succ_self _
  | taken _ _ _ _ _ _ serving => exact absurd serving (unmoved _)

theorem Standing.complete {work : Nat} {outcome : Outcome} (standing : Standing c d w work)
    (succeeds : outcome.success = true)
    (fits : ∀ client ∈ w.state.clients c, ∀ size ∈ client.expects,
      (UInt32.ofNat outcome.respSize).toNat = size)
    (moved : (channel.watch (machine C D)).next w (.complete d outcome) = some v) :
    ∃ more, work < more ∧ Standing c d v more := by
  obtain ⟨mutex, _, place, stage, posts, rfl⟩ := standing
  have taken : next w.state (.complete d outcome) = some v.state := (Monitor.watch_next moved).1
  simp only [next] at taken
  split at taken
  · rename_i request serving
    simp only [Option.bind_eq_bind, Option.bind_eq_some_iff, Option.some.injEq,
      lockRobust_free mutex, exists_eq_left'] at taken
    cases stage with
    | absent _ _ _ rests | ready _ _ _ _ rests | answered _ _ _ _ _ _ rests =>
      exact absurd serving (rests.not_serving request)
    | posted _ _ _ _ _ _ up =>
      rcases up with idle | waiting
      · simp [idle] at serving
      · simp [waiting] at serving
    | @taken client call ticket there alive waits pending room number quiet serving_there =>
      obtain rfl := Driver.serving.inj (serving.symm.trans serving_there)
      have size := fits client alive call.respSize (by simp [Client.expects, waits])
      have after := Stage.answered (c := c) (w := v) (taken ▸ alive) waits (taken ▸ rfl)
        (by rw [← taken]; simp [ServiceShm.complete, ServiceShm.unlock, State.unlock,
          State.putDriver, succeeds])
        (by rw [← taken]; simp [ServiceShm.complete, ServiceShm.unlock, State.unlock,
          State.putDriver, succeeds, number])
        (by rw [← taken]; simpa [ServiceShm.complete, ServiceShm.unlock, State.unlock,
          State.putDriver, succeeds] using size)
        (.awake (by rw [← taken]; exact Function.update_self _ _ _))
      refine ⟨_, ?_, taken ▸ rfl, 1, _, after, taken ▸ posts, rfl⟩
      rw [← taken]
      exact Nat.lt_succ_self _
  · contradiction

theorem Standing.step {work : Nat} (standing : Standing c d w work) (good : Cooperates c d w e)
    (moved : (channel.watch (machine C D)).next w e = some v) :
    ∃ more, work < more ∧ Standing c d v more := by
  have taken : next w.state e = some v.state := (Monitor.watch_next moved).1
  cases e with
  | connect x pid =>
    obtain rfl := good
    exact standing.connect moved
  | call x call shutdown interrupted =>
    obtain ⟨rfl, rfl, rfl⟩ := good
    exact standing.call moved
  | responseWake x cause shutdown =>
    obtain ⟨rfl, rfl, rfl, woken⟩ := good
    exact standing.responseWake woken moved
  | serviceLoop x running shutdown =>
    obtain ⟨rfl, rfl, rfl⟩ := good
    simp only [next, Option.bind_eq_bind, Option.bind_eq_some_iff, guard_passed,
      Option.some.injEq, lockRobust_free standing.mutex, exists_eq_left'] at taken
    obtain ⟨_, idle, same⟩ := taken
    exact standing.loops rfl rfl rfl moved (.inl idle) same
  | loopWake x cause running shutdown =>
    obtain ⟨rfl, rfl, rfl, rfl, woken⟩ := good
    simp only [next, Option.bind_eq_bind, Option.bind_eq_some_iff, guard_passed,
      Option.some.injEq, reacquire_free standing.mutex, exists_eq_left', reduceCtorEq, if_false,
      ne_eq, not_true_eq_false, false_and] at taken
    obtain ⟨_, waiting, same⟩ := taken
    exact standing.loops rfl rfl rfl moved (.inr ⟨waiting, woken⟩) same
  | complete x outcome =>
    obtain ⟨rfl, succeeds, fits⟩ := good
    exact standing.complete succeeds fits moved
  | freeWake | spinOnce | clientDies | driverDies => exact good.elim

abbrev tick (_ : Watched (State C D) (D ⊕ C)) (_ : Event C D)
    (_ : Watched (State C D) (D ⊕ C)) : List Unit := [()]

theorem initial_standing (c : C) (d : D) (init : (channel.watch (machine C D)).initial w) :
    Standing c d w 0 := by
  obtain ⟨state, notified⟩ := w
  obtain ⟨rfl, rfl⟩ := init
  exact ⟨rfl, 0, 0, .absent rfl rfl rfl (.awake rfl), rfl, rfl⟩

theorem Cooperates.outside (good : Cooperates c d w e) : ¬ e.DiesInside := by
  cases e with
  | clientDies | driverDies => exact good.elim
  | _ => exact id

theorem Standing.unstuck {work : Nat} (standing : Standing c d w work)
    (reach : (channel.watch (machine C D)).ReachableWhen (fun _ e => ¬ e.DiesInside) w)
    {client : Client} (alive : w.state.clients c = some client) (calls : client.phase ≠ .idle) :
    ∃ e v, Cooperates c d w e ∧ (channel.watch (machine C D)).next w e = some v := by
  have kept := requestWait_kept.both (responseWait_kept (C := C) (D := D)) one_party
  obtain ⟨mutex, _, _, stage, _, _⟩ := standing
  have steps : ∀ {e}, Cooperates c d w e → (next w.state e).isSome = true →
      ∃ e v, Cooperates c d w e ∧ (channel.watch (machine C D)).next w e = some v := by
    intro e good enabled
    obtain ⟨t, taken⟩ := Option.isSome_iff_exists.mp enabled
    exact ⟨e, _, good, Option.map_eq_some_iff.mpr ⟨t, taken, rfl⟩⟩
  cases stage with
  | absent absent => simp [absent] at alive
  | ready there idle =>
    obtain rfl := Option.some.inj (alive.symm.trans there)
    exact absurd idle calls
  | posted _ _ pending _ _ _ up =>
    rcases up with idle | waiting
    · refine steps (e := .serviceLoop d true false) ⟨rfl, rfl, rfl⟩ ?_
      simp [next, idle, lockRobust_free mutex, guard]
    · have woken := kept.notified (i := .inl d) reach waiting pending
      refine steps (e := .loopWake d .ok true false) ⟨rfl, rfl, rfl, rfl, woken⟩ ?_
      simp [next, waiting, reacquire_free mutex, guard]
  | @taken client call ticket request there waits _ _ _ _ serving =>
    have size : (UInt32.ofNat call.respSize).toNat = call.respSize := by
      have small : maxMsgSize < 2 ^ 32 := by decide
      exact UInt32.toNat_ofNat_of_lt' (Nat.lt_of_le_of_lt call.respFits small)
    have fits : ∀ client ∈ w.state.clients c, ∀ size ∈ client.expects,
        (UInt32.ofNat call.respSize).toNat = size := by
      intro other same asked wants
      obtain rfl := Option.some.inj (there.symm.trans same)
      rw [Client.expects, waits, Option.mem_some] at wants
      exact size.trans wants
    refine steps (e := .complete d ⟨true, [], call.respSize⟩) ⟨rfl, rfl, fits⟩ ?_
    simp [next, serving, lockRobust_free mutex]
  | answered there waits _ answered _ _ _ =>
    have woken := kept.notified (i := .inr c) reach ⟨_, _, _, there, waits⟩ answered
    refine steps (e := .responseWake c .ok false) ⟨rfl, rfl, rfl, woken⟩ ?_
    simp [next, there, waits, reacquire_free mutex]

/-- In such a run at most five steps go by for each call that has returned, and six more; every
call but the one in progress has returned true, and that one is never stuck. -/
theorem lone_calls_complete {seen : List Unit}
    (trace : (channel.watch (machine C D)).Traces (Cooperates c d) tick w seen) :
    seen.length ≤ 5 * w.state.returned.length + 6 ∧
    w.state.posts.length ≤ w.state.returned.length + 1 ∧
    ∀ client, w.state.clients c = some client →
      (client.phase = .idle → w.state.posts.length = w.state.returned.length) ∧
      (client.phase ≠ .idle →
        ∃ e v, Cooperates c d w e ∧ (channel.watch (machine C D)).next w e = some v) := by
  obtain ⟨work, standing, bound⟩ := trace.length_le (Standing c d)
    (fun w init => ⟨0, initial_standing c d init⟩)
    (fun _ _ _ _ _ standing good moved => standing.step good moved)
  have reach := trace.reachable.weaken fun _ _ good => good.outside
  refine ⟨?_, ?_, fun client alive => ⟨?_, standing.unstuck reach alive⟩⟩
  all_goals obtain ⟨_, unanswered, place, stage, posts, rfl⟩ := standing
  · cases stage with
    | absent _ _ _ rests | ready _ _ _ _ rests | answered _ _ _ _ _ _ rests =>
      have := rests.place_le
      omega
    | posted | taken => omega
  · cases stage <;> omega
  · intro idle
    cases stage with
    | absent | ready => exact posts
    | posted there waits | taken there waits | answered there waits =>
      obtain rfl := Option.some.inj (alive.symm.trans there)
      simp [idle] at waits

end

theorem lone_calls_complete_once : ∃ w : Watched (State Unit Unit) (Unit ⊕ Unit),
    w.state.returned.map Returned.response = [[9]] ∧ w.state.posts.length ≤ 1 + 1 := by
  have ends : ((channel.watch (machine Unit Unit)).watchedRun (Cooperates () ()) tick
      ⟨⟨.init, fun _ => none, fun _ => .idle, [], [], []⟩, fun _ => false⟩
      [.serviceLoop () true false, .connect () 100, .call () (.ofByte 1) false false,
        .loopWake () .ok true false, .complete () (.ofByte 9), .serviceLoop () true false,
        .responseWake () .ok false]).map
      (fun r => decide (r.1.state.returned.map Returned.response = [[9]])) = some true := by
    decide +kernel
  obtain ⟨⟨w, seen⟩, path, answered⟩ := Option.map_eq_some_iff.mp ends
  have answered := of_decide_eq_true answered
  have begins : (channel.watch (machine Unit Unit)).initial
      ⟨⟨.init, fun _ => none, fun _ => .idle, [], [], []⟩, fun _ => false⟩ := ⟨rfl, rfl⟩
  have complete := lone_calls_complete (Machine.Traces.watchedRun (.start begins) _ path)
  have one : w.state.returned.length = 1 := by
    simpa using congrArg List.length answered
  exact ⟨w, answered, one ▸ complete.2.1⟩

end ComIpc.Service
