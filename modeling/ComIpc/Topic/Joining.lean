import ComIpc.Topic.Async
import ComIpc.Topic.Freshness
import ComIpc.Topic.Wakeups

/-! The end of a subscriber's thread.

`~Subscriber` clears `async_running_` and joins. From then on at most one message reaches the
callback. If no process dies the thread comes to its end in a few steps of its own.
-/

set_option autoImplicit false

namespace ComIpc.Topic

open Semantics

section
variable {Id : Type} {i : Id} {s t : Async Id}

/-- An iteration of `asyncLoop` that may still end in the callback. -/
def Loop.UnderWay : Loop → Prop
  | entering | receiving | calling _ => True
  | off | test | ended => False

instance (loop : Loop) : Decidable loop.UnderWay :=
  match loop with
  | .entering | .receiving | .calling _ => isTrue trivial
  | .off | .test | .ended => isFalse id

theorem goesOn_active (before after : Subscriber) : goesOn before after ≠ .off := by
  unfold goesOn
  split
  · split
    · exact nofun
    · exact nofun
  · exact nofun
  · exact nofun

theorem loopAfter_underWay {after : State Id} {e : Event Id} {loop : Loop}
    (active : s.loop ≠ .off) (moved : loopAfter i s after e = some loop) :
    loop ≠ .off ∧ (loop.UnderWay → s.loop.UnderWay) := by
  cases e with
  | publishRaw | publishLoaned | publisherDies | attach =>
    obtain rfl := Option.some.inj moved
    exact ⟨active, id⟩
  | construct j =>
    obtain ⟨_, held, _⟩ := Option.bind_eq_some_iff.mp moved
    exact absurd (guard_passed.mp held) active
  | destroy j =>
    obtain ⟨_, _, same⟩ := Option.bind_eq_some_iff.mp moved
    obtain rfl := Option.some.inj same
    exact ⟨nofun, False.elim⟩
  | subscriberDies j holding =>
    obtain rfl := Option.some.inj moved
    exact ⟨nofun, False.elim⟩
  | receive j call shutdown =>
    simp only [loopAfter, if_neg active, Option.bind_eq_bind, Option.bind_eq_some_iff] at moved
    obtain ⟨_, held, before, _, sub, _, same⟩ := moved
    obtain ⟨entering, _⟩ := guard_passed.mp held
    obtain rfl := Option.some.inj same
    rw [entering]
    exact ⟨goesOn_active before sub, fun _ => trivial⟩
  | wake | finish =>
    simp only [loopAfter, if_neg active, Option.bind_eq_bind, Option.bind_eq_some_iff] at moved
    obtain ⟨_, held, before, _, sub, _, same⟩ := moved
    have receiving := guard_passed.mp held
    obtain rfl := Option.some.inj same
    rw [receiving]
    exact ⟨goesOn_active before sub, fun _ => trivial⟩

/-- What can follow after the destructor has cleared the flag. -/
structure Stopped (s u : Async Id) : Prop where
  running : u.running = false
  active : u.loop ≠ .off
  last : ∃ last : Option Returned, u.calls = s.calls ++ last.toList ∧
    (u.loop.UnderWay → last = none) ∧ (last.isSome ∨ u.loop.UnderWay → s.loop.UnderWay)

theorem Stopped.refl (stopped : s.running = false) (registered : s.loop ≠ .off) : Stopped s s :=
  ⟨stopped, registered, none, (List.append_nil _).symm, fun _ => rfl, 
    fun either => by simpa using either⟩

theorem Stopped.quiet {u : Async Id} (stopped : Stopped s u) (running : t.running = false)
    (calls : t.calls = u.calls) (active : t.loop ≠ .off)
    (under : t.loop.UnderWay → u.loop.UnderWay) : Stopped s t := by
  obtain ⟨last, grown, fresh, begun⟩ := stopped.last
  exact ⟨running, active, last, calls.trans grown, fun way => fresh (under way),
    fun either => begun (either.imp_right under)⟩

end

section
variable {Id : Type} [DecidableEq Id] {i : Id} {s t : Async Id}

theorem Stopped.step {u : Async Id} {e : AsyncEvent Id} (stopped : Stopped s u)
    (taken : (async i).next u e = some t) : Stopped s t := by
  cases e with
  | registerCallback =>
    simp only [async, Async.next, Option.bind_eq_bind, Option.bind_eq_some_iff] at taken
    obtain ⟨sub, _, taken⟩ := taken
    rw [if_neg (by simp [stopped.running])] at taken
    obtain ⟨_, held, _⟩ := Option.bind_eq_some_iff.mp taken
    exact absurd (guard_passed.mp held).1 stopped.active
  | test shutdown =>
    obtain ⟨_, _, taken⟩ := Option.bind_eq_some_iff.mp taken
    rw [if_neg (by simp [stopped.running])] at taken
    obtain rfl := Option.some.inj taken
    exact stopped.quiet stopped.running rfl (by simp) False.elim
  | callback =>
    obtain ⟨message, inHand, taken⟩ := Option.bind_eq_some_iff.mp taken
    have calling := Loop.message_calling inHand
    obtain ⟨last, grown, fresh, begun⟩ := stopped.last
    rw [calling] at fresh begun
    obtain rfl := fresh trivial
    obtain rfl := Option.some.inj taken
    refine ⟨stopped.running, by simp, some message, ?_, False.elim, fun _ => begun (.inr trivial)⟩
    rw [grown, Option.toList_none, List.append_nil, Option.toList_some]
  | stop =>
    obtain rfl := Option.some.inj taken
    exact stopped.quiet rfl rfl stopped.active id
  | topic e =>
    obtain ⟨_, running, _, calls, moved⟩ := async_topic taken
    by_cases acts : e.subscriber = some i
    · rw [loopMoves, if_pos acts] at moved
      obtain ⟨active, under⟩ := loopAfter_underWay stopped.active moved
      exact stopped.quiet (running.trans stopped.running) calls active under
    · rw [loopMoves, if_neg acts] at moved
      obtain same := Option.some.inj moved
      exact stopped.quiet (running.trans stopped.running) calls (same ▸ stopped.active)
        (same ▸ id)

def threadSteps (i : Id) : List (AsyncEvent Id) :=
  [.test false, .callback, .topic (.receive i asyncCall false), .topic (.wake i .timedOut false),
    .topic (.finish i)]

/-- The destructor waits for the thread and nobody holds the mutex. -/
structure Joining (i : Id) (loop : Loop) (s : Async Id) : Prop where
  stopped : s.running = false
  free : s.topic.shm.mutex = .unlocked
  place : s.loop = loop
  there : ∃ sub, s.topic.subscribers i = some sub ∧ Within loop sub.phase

theorem Joining.test {own : AsyncEvent Id → Prop} (tests : own (.test false))
    (joining : Joining i .test s) : (async i).EndsBy own (Joining i .ended) 1 s := by
  have taken : (async i).next s (.test false) = some { s with loop := .ended } := by
    simp [async, Async.next, joining.place, joining.stopped]
  exact .step tests taken (.here ⟨joining.stopped, joining.free, rfl, joining.there⟩)

theorem Joining.calling {message : Returned} (joining : Joining i (.calling message) s) :
    (async i).EndsBy (· ∈ threadSteps i) (Joining i .ended) 2 s := by
  have taken : (async i).next s .callback =
      some { s with loop := .test, calls := s.calls ++ [message] } := by
    simp [async, Async.next, joining.place, Loop.message]
  exact .step (by simp [threadSteps]) taken
    (Joining.test (by simp [threadSteps]) ⟨joining.stopped, joining.free, rfl, joining.there⟩)

theorem wake_timedOut {s : State Id} (free : s.shm.mutex = .unlocked) {sub : Subscriber}
    (there : s.subscribers i = some sub) (waits : sub.phase = .waiting asyncCall) :
    next s (.wake i .timedOut false) =
      some ({ s with shm := { s.shm with mutex := .unlocked } }.put i
        { sub with phase := .idle }) := by
  have acquired : s.shm.mutex.reacquire .timedOut = some (.held, .timedOut) := by
    rw [free]
    rfl
  simp only [next, Option.bind_eq_bind, there, acquired, waits, Option.bind_some]
  rfl

theorem receive_entered {s : State Id} (free : s.shm.mutex = .unlocked) {sub : Subscriber}
    (there : s.subscribers i = some sub) (idle : sub.phase = .idle) : ∃ phase,
      next s (.receive i asyncCall false) =
        some ({ s with shm := { s.shm with mutex := .unlocked } }.put i
          { sub with phase := phase }) ∧
      phase.call = some asyncCall := by
  have locked : s.shm.lockRobust = some { s.shm with mutex := .held } := by
    rw [TopicShm.lockRobust, free]
    rfl
  have passes : (guard True : Option Unit) = some () := guard_passed.mpr trivial
  simp only [next, Option.bind_eq_bind, there, locked, idle, passes, Option.bind_some]
  by_cases fresh : sub.lastSeq ≥ s.shm.seq
  · refine ⟨.waiting asyncCall, ?_, rfl⟩
    simp [receiveLocked, fresh, asyncCall, ReceiveCall.timeoutMs, TopicShm.unlock]
  · refine ⟨.holding asyncCall s.shm.newest s.published.length, ?_, rfl⟩
    simp [receiveLocked, fresh, TopicShm.unlock, TopicShm.newest]

theorem Joining.waiting {own : AsyncEvent Id → Prop} (tests : own (.test false))
    (times : own (.topic (.wake i .timedOut false))) (joining : Joining i .receiving s)
    {sub : Subscriber} (there : s.topic.subscribers i = some sub)
    (waits : sub.phase = .waiting asyncCall) :
    (async i).EndsBy own (Joining i .ended) 2 s := by
  have woken := wake_timedOut joining.free there waits
  have taken : (async i).next s (.topic (.wake i .timedOut false)) = some { s with
      topic := { s.topic with shm := { s.topic.shm with mutex := .unlocked } }.put i
        { sub with phase := .idle }
      loop := .test } := by
    simp [async, Async.next, woken, loopMoves, loopAfter, Event.subscriber, joining.place, there,
      goesOn]
  exact .step times taken
    (Joining.test tests ⟨joining.stopped, rfl, rfl, _, put_self _ i _, rfl⟩)

theorem Joining.receiving (joining : Joining i .receiving s) :
    (async i).EndsBy (· ∈ threadSteps i) (Joining i .ended) 3 s := by
  obtain ⟨sub, there, within⟩ := joining.there
  have inside := joining.place
  cases phase : sub.phase with
  | idle =>
    rw [phase] at within
    exact nomatch within
  | waiting call =>
    rw [phase] at within
    obtain rfl := Option.some.inj within
    exact .mono (by decide) (joining.waiting (by simp [threadSteps]) (by simp [threadSteps])
      there phase)
  | holding call header publication =>
    rw [phase] at within
    obtain rfl := Option.some.inj within
    have taken : (async i).next s (.topic (.finish i)) = some { s with
        topic := s.topic.put i { sub with
          lastSeq := header.seq.toUInt32
          phase := .idle
          seen := publication
          deliveries := sub.deliveries ++ [⟨publication, asyncCall, asyncCall.view header⟩] }
        loop := .calling (asyncCall.view header) } := by
      have done : next s.topic (.finish i) =
          (finish sub asyncCall header publication).map fun sub => s.topic.put i sub := by
        simp [next, there, phase]
      simp [async, Async.next, done, finish, asyncCall, loopMoves, loopAfter, Event.subscriber,
        inside, there, goesOn]
    exact .step (by simp [threadSteps]) taken
      (Joining.calling ⟨joining.stopped, joining.free, rfl, _, put_self _ i _, rfl⟩)

theorem Joining.entering (joining : Joining i .entering s) :
    (async i).EndsBy (· ∈ threadSteps i) (Joining i .ended) 4 s := by
  obtain ⟨sub, there, idle⟩ := joining.there
  have inside := joining.place
  obtain ⟨phase, entered, call⟩ := receive_entered joining.free there idle
  have taken : (async i).next s (.topic (.receive i asyncCall false)) = some { s with
      topic := { s.topic with shm := { s.topic.shm with mutex := .unlocked } }.put i
        { sub with phase := phase }
      loop := .receiving } := by
    have goes : goesOn sub { sub with phase := phase } = .receiving := by
      cases phase with
      | idle => exact nomatch call
      | waiting | holding => rfl
    simp [async, Async.next, entered, loopMoves, loopAfter, Event.subscriber, inside, there, goes]
  exact .step (by simp [threadSteps]) taken
    (Joining.receiving ⟨joining.stopped, rfl, rfl, _, put_self _ i _, call⟩)

theorem Joining.ended (joining : Joining i .ended s) :
    ((async i).next s (.topic (.destroy i))).isSome = true := by
  obtain ⟨sub, there, idle⟩ := joining.there
  have idle : sub.phase = .idle := idle
  have locked : s.topic.shm.lockRobust = some { s.topic.shm with mutex := .held } := by
    rw [TopicShm.lockRobust, joining.free]
    rfl
  simp [async, Async.next, next, there, locked, idle, loopMoves, loopAfter, Event.subscriber,
    joining.stopped, joining.place, guard]

theorem joining_of_reachable (reach : (async i).ReachableWhen (OnTopic NoDeath) s)
    (stopped : s.running = false) {sub : Subscriber}
    (there : s.topic.subscribers i = some sub) : Joining i s.loop s := by
  have whole : (async i).ReachableWhen (OnTopic CompleteOrUntouched) s := by
    apply reach.weaken
    intro s e alive
    cases e with
    | topic e => exact alive.completeOrUntouched
    | registerCallback | test | callback | stop => trivial
  exact ⟨stopped, reachable_unlocked (reachable_topic reach), rfl, sub, there,
    (reachable_served whole).inside sub there⟩

/-- If nobody dies, the join of the destructor returns: from wherever the thread is, four steps
of its own end it, and the destructor goes on. -/
theorem stopped_thread_ends (reach : (async i).ReachableWhen (OnTopic NoDeath) s)
    (stopped : s.running = false) (registered : s.loop ≠ .off) {sub : Subscriber}
    (there : s.topic.subscribers i = some sub) : ∃ schedule t, schedule.length ≤ 4 ∧
      (∀ e ∈ schedule, e ∈ threadSteps i) ∧ (async i).run s schedule = some t ∧
      t.loop = .ended ∧ ((async i).next t (.topic (.destroy i))).isSome := by
  have joining := joining_of_reachable reach stopped there
  have ends : (async i).EndsBy (· ∈ threadSteps i) (Joining i .ended) 4 s := by
    cases inside : s.loop with
    | off => exact absurd inside registered
    | test => exact .mono (by decide) (Joining.test (by simp [threadSteps]) (inside ▸ joining))
    | entering => exact Joining.entering (inside ▸ joining)
    | receiving => exact .mono (by decide) (Joining.receiving (inside ▸ joining))
    | calling message => exact .mono (by decide) (Joining.calling (inside ▸ joining))
    | ended => exact .here (inside ▸ joining)
  obtain ⟨schedule, t, short, own, path, joined⟩ := ends.schedule
  exact ⟨schedule, t, short, own, path, joined.place, joined.ended⟩

-- A publisher may die before its first write while the thread waits. The wait reports it, its
-- caller goes back to the loop test, and the next wait gives the mutex up for good.

theorem lost_unusable {m : RobustMutex} (lost : m = .notRecoverable) : ¬ m.Usable := by
  rw [lost]
  decide

theorem lost_counter {s t : State Id} {e : Event Id} (lost : s.shm.mutex = .notRecoverable)
    (taken : next s e = some t) : t.shm.seq = s.shm.seq := by
  cases e with
  | publishRaw p | publishLoaned p =>
    obtain ⟨shm, done, _⟩ := Option.bind_eq_some_iff.mp taken
    exact absurd (publishLocked_mutex done).1 (lost_unusable lost)
  | publisherDies p count =>
    obtain ⟨shm, died, _⟩ := Option.bind_eq_some_iff.mp taken
    exact absurd (publishDies_mutex died).1 (lost_unusable lost)
  | attach | construct | destroy | receive | wake | finish | subscriberDies =>
    refine (next_counter ?_ taken).resolve_right ?_
    · trivial
    · simp [Event.broadcasts]

structure Asleep (i : Id) (s : Async Id) : Prop where
  inside : s.loop = .receiving
  waits : ∃ sub, s.topic.subscribers i = some sub ∧ sub.phase = .waiting asyncCall ∧
    sub.lastSeq ≥ s.topic.shm.seq

theorem Asleep.still {e : AsyncEvent Id} (asleep : Asleep i s)
    (taken : (async i).next s e = some t) (still : ∀ f, e ≠ .topic f) : Asleep i t := by
  cases e with
  | topic f => exact absurd rfl (still f)
  | registerCallback =>
    simp only [async, Async.next, Option.bind_eq_bind, Option.bind_eq_some_iff] at taken
    obtain ⟨sub, _, taken⟩ := taken
    split at taken
    · exact Option.some.inj taken ▸ asleep
    · obtain ⟨_, held, _⟩ := Option.bind_eq_some_iff.mp taken
      simp [asleep.inside] at held
  | test shutdown =>
    obtain ⟨_, held, _⟩ := Option.bind_eq_some_iff.mp taken
    simp [asleep.inside] at held
  | callback =>
    obtain ⟨message, inHand, _⟩ := Option.bind_eq_some_iff.mp taken
    simp [asleep.inside, Loop.message] at inHand
  | stop => exact Option.some.inj taken ▸ ⟨asleep.inside, asleep.waits⟩

theorem Asleep.others {e : Event Id} (asleep : Asleep i s) (acts : e.subscriber ≠ some i)
    (counter : t.topic.shm.seq = s.topic.shm.seq)
    (taken : (async i).next s (.topic e) = some t) : Asleep i t := by
  obtain ⟨stepped, _, _, _, moved⟩ := async_topic taken
  rw [loopMoves, if_neg acts] at moved
  exact ⟨(Option.some.inj moved).symm.trans asleep.inside,
    next_frame stepped acts ▸ counter ▸ asleep.waits⟩

structure Stuck (i : Id) (s : Async Id) : Prop extends Asleep i s where
  lost : s.topic.shm.mutex = .notRecoverable

/-- What could get it out of there. -/
def Releases (i : Id) : AsyncEvent Id → Prop
  | .topic (.wake j _ shutdown) => j = i ∧ shutdown = true
  | .topic (.subscriberDies j _) => j = i
  | _ => False

/-- Only a timeout ends the loop while there is nothing new. -/
theorem wake_again {s t : State Id} {cause ret : Ret} {mutex : RobustMutex}
    (acquired : s.shm.mutex.reacquire cause = some (mutex, ret)) (other : ret ≠ .timedOut)
    {sub : Subscriber} (there : s.subscribers i = some sub)
    (waits : sub.phase = .waiting asyncCall) (old : sub.lastSeq ≥ s.shm.seq)
    (taken : next s (.wake i cause false) = some t) :
    t.subscribers i = some sub ∧ t.shm = { s.shm with mutex := mutex.unlock } := by
  have again : wakeLocked { s.shm with mutex := mutex } sub.lastSeq asyncCall ret false
      s.published.length = ({ s.shm with mutex := mutex.unlock }, sub.phase) := by
    rw [waits]
    simp [wakeLocked, receiveLocked, old, other, asyncCall, ReceiveCall.timeoutMs, TopicShm.unlock]
  simp only [next, Option.bind_eq_bind, there, acquired, Option.bind_some, waits, again] at taken
  obtain rfl := Option.some.inj taken
  refine ⟨?_, rfl⟩
  rw [put_self, ← waits]

theorem Stuck.own {e : Event Id} (stuck : Stuck i s) (kept : ¬ Releases i (.topic e))
    (acts : e.subscriber = some i) (stepped : Topic.next s.topic e = some t.topic)
    (moved : loopAfter i s t.topic e = some t.loop) :
    t.loop = .receiving ∧ t.topic.subscribers i = s.topic.subscribers i := by
  obtain ⟨sub, there, waits, old⟩ := stuck.waits
  have inside := stuck.inside
  cases e with
  | publishRaw | publishLoaned | publisherDies | attach => cases acts
  | construct j =>
    cases acts
    obtain ⟨_, _, absent, _⟩ := next_construct stepped
    exact nomatch absent.symm.trans there
  | destroy j =>
    obtain ⟨_, held, _⟩ := Option.bind_eq_some_iff.mp moved
    rw [inside] at held
    simp at held
  | subscriberDies j holding =>
    cases acts
    exact absurd rfl kept
  | receive j call shutdown =>
    cases acts
    obtain ⟨other, _, _, here, idle, _⟩ := next_receive stepped
    obtain rfl := Option.some.inj (here.symm.trans there)
    exact nomatch idle.symm.trans waits
  | finish j =>
    cases acts
    obtain ⟨other, _, _, _, _, here, held, _⟩ := next_finish stepped
    obtain rfl := Option.some.inj (here.symm.trans there)
    exact nomatch held.symm.trans waits
  | wake j cause shutdown =>
    cases acts
    cases shutdown with
    | true => exact absurd ⟨rfl, rfl⟩ kept
    | false =>
      have failed :
          s.topic.shm.mutex.reacquire cause = some (.notRecoverable, .notRecoverable) := by
        rw [stuck.lost]
        rfl
      obtain ⟨same, _⟩ := wake_again failed (by simp) there waits old stepped
      rcases loopAfter_later moved (.inl ⟨cause, false, rfl⟩) there same with
        ⟨off, _⟩ | ⟨_, loop⟩
      · exact nomatch inside.symm.trans off
      · rw [loop, goesOn, waits]
        exact ⟨rfl, same.trans there.symm⟩

theorem Stuck.step {e : AsyncEvent Id} (stuck : Stuck i s) (kept : ¬ Releases i e)
    (taken : (async i).next s e = some t) : Stuck i t := by
  cases e with
  | registerCallback | test | callback | stop =>
    exact ⟨stuck.toAsleep.still taken fun _ => nofun,
      (async_still taken fun _ => nofun) ▸ stuck.lost⟩
  | topic e =>
    obtain ⟨stepped, _, _, _, moved⟩ := async_topic taken
    have lost := next_lost stuck.lost stepped
    have counter := lost_counter stuck.lost stepped
    by_cases acts : e.subscriber = some i
    · rw [loopMoves, if_pos acts] at moved
      obtain ⟨inside, same⟩ := stuck.own kept acts stepped moved
      exact ⟨⟨inside, same ▸ counter ▸ stuck.waits⟩, lost⟩
    · exact ⟨stuck.toAsleep.others acts counter taken, lost⟩

theorem Stuck.hangs (stuck : Stuck i s) {u : Async Id}
    (path : (async i).Before (fun _ _ => True) (fun _ => Releases i) s u) :
    u.loop = .receiving ∧ (async i).next u (.topic (.destroy i)) = none := by
  have stays := path.kept (Stuck i) (fun u e v stuck _ kept taken => stuck.step kept taken) stuck
  refine ⟨stays.inside, ?_⟩
  rw [Option.eq_none_iff_forall_ne_some]
  intro v taken
  obtain ⟨_, _, _, _, moved⟩ := async_topic taken
  have acts : (Event.destroy i).subscriber = some i := rfl
  rw [loopMoves, if_pos acts] at moved
  obtain ⟨_, held, _⟩ := Option.bind_eq_some_iff.mp moved
  rw [stays.inside] at held
  simp at held

theorem untouched_death {s t : State Id} {p : Publication}
    (taken : next s (.publisherDies p 0) = some t) :
    t.shm = { s.shm with mutex := .ownerDied } ∧ t.subscribers = s.subscribers := by
  obtain ⟨shm, died, same⟩ := Option.bind_eq_some_iff.mp taken
  obtain ⟨locked, acquired, rfl⟩ := Option.map_eq_some_iff.mp died
  obtain ⟨rfl, _⟩ := TopicShm.lockRobust_eq acquired
  obtain rfl := Option.some.inj same
  exact ⟨rfl, rfl⟩

/-- The step takes the mutex through `lockRobust`, which repairs it. -/
def Event.locksRobust : Event Id → Bool
  | .publishRaw _ | .publishLoaned _ | .publisherDies _ _ | .attach | .construct _ | .destroy _
  | .receive _ _ _ => true
  | .wake _ _ _ | .finish _ | .subscriberDies _ _ => false

def ActsOrRepairs (i : Id) : AsyncEvent Id → Prop
  | .topic e => e.subscriber = some i ∨ e.locksRobust = true
  | .registerCallback | .test _ | .callback | .stop => False

/-- The thread waits in a topic whose mutex nobody has repaired after a death. -/
structure Abandoned (i : Id) (s : Async Id) : Prop extends Asleep i s where
  dead : s.topic.shm.mutex = .ownerDied ∨ s.topic.shm.mutex = .notRecoverable

theorem next_dead {s t : State Id} {e : Event Id} (unrepaired : e.locksRobust = false)
    (dead : s.shm.mutex = .ownerDied ∨ s.shm.mutex = .notRecoverable)
    (taken : next s e = some t) : t.shm.mutex = .ownerDied ∨ t.shm.mutex = .notRecoverable := by
  rcases dead with died | lost
  · cases e with
    | publishRaw | publishLoaned | publisherDies | attach | construct | destroy | receive =>
      cases unrepaired
    | finish j =>
      obtain ⟨_, _, _, _, _, _, _, _, rfl⟩ := next_finish taken
      exact .inl died
    | subscriberDies j holding =>
      simp only [next, Option.bind_eq_bind, Option.bind_eq_some_iff, Option.some.injEq] at taken
      obtain ⟨mutex, dies, _, _, rfl⟩ := taken
      cases holding with
      | false => exact .inl (Option.some.inj dies ▸ died)
      | true => exact .inl (SystemManager.dieHolding_eq dies)
    | wake j cause shutdown =>
      rcases next_mutex taken with ⟨waits, _⟩ | ⟨_, _, _, acquired, left⟩
      · simp [WaitsAfterRepair, died] at waits
      · rw [RobustMutex.reacquire_ownerDied acquired died] at left
        exact .inr left
  · exact .inr (next_lost lost taken)

theorem Abandoned.step {e : AsyncEvent Id} (abandoned : Abandoned i s)
    (kept : ¬ ActsOrRepairs i e) (taken : (async i).next s e = some t) : Abandoned i t := by
  cases e with
  | registerCallback | test | callback | stop =>
    exact ⟨abandoned.toAsleep.still taken fun _ => nofun,
      (async_still taken fun _ => nofun) ▸ abandoned.dead⟩
  | topic e =>
    obtain ⟨acts, unrepaired⟩ := not_or.mp kept
    rw [Bool.not_eq_true] at unrepaired
    have stepped := (async_topic taken).1
    refine ⟨abandoned.toAsleep.others acts ?_ taken,
      next_dead unrepaired abandoned.dead stepped⟩
    cases e with
    | publishRaw | publishLoaned | publisherDies | attach | construct | destroy | receive =>
      cases unrepaired
    | wake | finish | subscriberDies =>
      exact (next_counter (by trivial) stepped).resolve_right (by simp [Event.broadcasts])

/-- The return of the wait loses the mutex, and the thread waits again. -/
theorem Abandoned.woken {cause : Ret} (abandoned : Abandoned i s)
    (taken : (async i).next s (.topic (.wake i cause false)) = some t) : Stuck i t := by
  obtain ⟨wakes, _, _, _, moved⟩ := async_topic taken
  obtain ⟨sub, there, waits, old⟩ := abandoned.waits
  have acts : (Event.wake i cause false).subscriber = some i := rfl
  rw [loopMoves, if_pos acts] at moved
  obtain ⟨mutex, ret, acquired, other, left⟩ : ∃ mutex ret,
      s.topic.shm.mutex.reacquire cause = some (mutex, ret) ∧ ret ≠ .timedOut ∧
        mutex.unlock = .notRecoverable := by
    rcases abandoned.dead with died | lost
    · exact ⟨.heldInconsistent, .ownerDead, by rw [died]; rfl, by decide, rfl⟩
    · exact ⟨.notRecoverable, .notRecoverable, by rw [lost]; rfl, by decide, rfl⟩
  obtain ⟨here, shm⟩ := wake_again acquired other there waits old wakes
  rcases loopAfter_later moved (.inl ⟨cause, false, rfl⟩) there here with ⟨off, _⟩ | ⟨_, loop⟩
  · simp [abandoned.inside] at off
  · rw [goesOn, waits] at loop
    exact ⟨⟨loop, sub, here, waits, shm ▸ old⟩, shm ▸ left⟩

/-- A publisher dies before its first write while the thread waits with nothing new. If the
wait returns, in whatever way, before somebody repairs the mutex, no run without a shutdown lets
the destructor finish. -/
theorem death_hangs_join {v w x : Async Id} (inside : s.loop = .receiving) {sub : Subscriber}
    (there : s.topic.subscribers i = some sub) (waits : sub.phase = .waiting asyncCall)
    (old : sub.lastSeq ≥ s.topic.shm.seq) {p : Publication}
    (died : (async i).next s (.topic (.publisherDies p 0)) = some v)
    (unrepaired : (async i).Before (fun _ _ => True) (fun _ => ActsOrRepairs i) v w) {cause : Ret}
    (woken : (async i).next w (.topic (.wake i cause false)) = some x) {u : Async Id}
    (path : (async i).Before (fun _ _ => True) (fun _ => Releases i) x u) :
    u.loop = .receiving ∧ (async i).next u (.topic (.destroy i)) = none := by
  obtain ⟨dies, _, _, _, still⟩ := async_topic died
  obtain ⟨left, kept⟩ := untouched_death dies
  have abandoned : Abandoned i v :=
    ⟨⟨(Option.some.inj still).symm.trans inside, sub, kept ▸ there, waits, left ▸ old⟩,
      .inl (left ▸ rfl)⟩
  have waiting := unrepaired.kept (Abandoned i)
    (fun _ _ _ abandoned _ kept taken => abandoned.step kept taken) abandoned
  exact (waiting.woken woken).hangs path

end

theorem stopped_thread_ends_asleep : ∃ (s : Async Nat) (schedule : List (AsyncEvent Nat))
    (t : Async Nat), s.loop = .receiving ∧ schedule.length ≤ 4 ∧
      (∀ e ∈ schedule, e ∈ threadSteps 0) ∧ (async 0).run s schedule = some t ∧
      t.loop = .ended ∧ ((async 0).next t (.topic (.destroy 0))).isSome := by
  obtain ⟨s, reach, ready⟩ := Machine.reachable_of_check (async 0) (OnTopic NoDeath) rfl
    [.topic (.construct 0), .registerCallback, .test false,
      .topic (.receive 0 asyncCall false), .stop]
    (fun s => decide (s.running = false ∧ s.loop = .receiving ∧
      (s.topic.subscribers 0).isSome)) (by decide +kernel)
  obtain ⟨stopped, receiving, alive⟩ := of_decide_eq_true ready
  obtain ⟨sub, there⟩ := Option.isSome_iff_exists.mp alive
  obtain ⟨schedule, t, ends⟩ := stopped_thread_ends reach stopped (receiving ▸ nofun) there
  exact ⟨s, schedule, t, receiving, ends⟩

theorem death_hangs_join_once : ∃ x : Async Nat, x.running = false ∧ ∀ u,
    (async 0).Before (fun _ _ => True) (fun _ => Releases 0) x u →
      u.loop = .receiving ∧ (async 0).next u (.topic (.destroy 0)) = none := by
  obtain ⟨s, _, ready⟩ := Machine.reachable_of_check (async 0) (fun _ _ => True) rfl
    [.topic (.construct 0), .registerCallback, .test false, .topic (.receive 0 asyncCall false)]
    (fun s => decide (s.loop = .receiving ∧ s.topic.shm.seq = 0 ∧
      s.topic.subscribers 0 = some ⟨0, .waiting asyncCall, 0, 0, []⟩ ∧
      ((((async 0).next s (.topic (.publisherDies ⟨.custom, 8, 0, 1⟩ 0))).bind fun v =>
        (async 0).next v .stop).bind fun w =>
          (async 0).next w (.topic (.wake 0 .timedOut false))).isSome)) (by decide +kernel)
  obtain ⟨receiving, zero, there, goes⟩ := of_decide_eq_true ready
  obtain ⟨x, goes⟩ := Option.isSome_iff_exists.mp goes
  obtain ⟨w, goes, woken⟩ := Option.bind_eq_some_iff.mp goes
  obtain ⟨v, died, stops⟩ := Option.bind_eq_some_iff.mp goes
  have stopped : w.running = false := Option.some.inj stops ▸ rfl
  have old : (0 : UInt32) ≥ s.topic.shm.seq := by
    rw [zero]
    decide
  have unrepaired : (async 0).Before (fun _ _ => True) (fun _ => ActsOrRepairs 0) v w :=
    Machine.ReachableWhen.step (.start rfl) (e := .stop) ⟨trivial, id⟩ stops
  exact ⟨x, (async_topic woken).2.1.trans stopped, fun u path =>
    death_hangs_join receiving there rfl old died unrepaired woken path⟩

end ComIpc.Topic
