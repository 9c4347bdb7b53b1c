import ComIpc.Semantics.Until
import ComIpc.Topic.Joining

/-! A subscriber of a Python program.

The callback that the binding of `createSubscriber` registers takes the interpreter lock before
it calls into Python. The destructor of a node runs with that lock held, as everything does that
the binding does not release it for, and joins the thread.
-/

set_option autoImplicit false

namespace ComIpc.Topic

open Semantics

inductive Holder where
  | nobody
  /-- A Python thread outside of the node's destructor. -/
  | python
  | callback
  | destructor
  deriving DecidableEq, Repr

structure Interpreted (Id : Type) where
  async : Async Id
  gil : Holder

inductive PythonEvent (Id : Type) where
  | takes
  /-- A sleep, the end of a time slice, or a bound function that releases the lock. -/
  | yields
  | createSubscriber
  | enterCallback
  | leaveCallback
  | destroyNode
  | joined
  | runs (e : AsyncEvent Id)
  deriving DecidableEq, Repr

/-- A message that the thread has taken off the topic and not yet passed through the callback. -/
def InHand {Id : Type} (i : Id) (s : Async Id) : Prop :=
  (∃ message, s.loop = .calling message) ∨ s.loop = .receiving ∧ ∃ sub header publication,
    s.topic.subscribers i = some sub ∧ sub.phase = .holding asyncCall header publication

/-- The thread is past its loop test, and the receive it goes into will find a message. -/
def NewsAhead {Id : Type} (i : Id) (s : Async Id) : Prop :=
  s.loop = .entering ∧ ∃ sub, s.topic.subscribers i = some sub ∧ sub.lastSeq < s.topic.shm.seq

def Committed {Id : Type} (i : Id) (s : Async Id) : Prop := InHand i s ∨ NewsAhead i s

theorem InHand.busy {Id : Type} {i : Id} {s : Async Id} (inHand : InHand i s) :
    s.loop ≠ .off ∧ s.loop ≠ .test ∧ s.loop ≠ .entering ∧ s.loop ≠ .ended := by
  rcases inHand with ⟨message, calling⟩ | ⟨receiving, _⟩
  · simp [calling]
  · simp [receiving]

theorem Committed.busy {Id : Type} {i : Id} {s : Async Id} (committed : Committed i s) :
    s.loop ≠ .off ∧ s.loop ≠ .test ∧ s.loop ≠ .ended := by
  rcases committed with inHand | ⟨entering, _⟩
  · obtain ⟨active, untested, _, running⟩ := inHand.busy
    exact ⟨active, untested, running⟩
  · simp [entering]

/-- The step sees the shutdown flag set in the process of the subscriber. -/
def Interrupted {Id : Type} [DecidableEq Id] (i : Id) : AsyncEvent Id → Bool
  | .test shutdown => shutdown
  | .topic (.receive j _ shutdown) | .topic (.wake j _ shutdown) => decide (j = i) && shutdown
  | .topic _ | .registerCallback | .callback | .stop => false

def NoWrap {Id : Type} : State Id → Event Id → Prop
  | s, .publishRaw _ | s, .publishLoaned _ | s, .publisherDies _ _ => s.shm.seq + 1 ≠ 0
  | _, _ => True

section
variable {Id : Type} [DecidableEq Id]

/-- What goes on in the thread and in the other processes without the interpreter lock. The
handlers of the interpreter do not set `g_shutdown_requested`. -/
def Unlocked (i : Id) : AsyncEvent Id → Bool
  | .test shutdown => !shutdown
  | .topic (.destroy j) => decide (j ≠ i)
  | .topic e => !Interrupted i (.topic e)
  | .registerCallback | .callback | .stop => false

def Interpreted.next (i : Id) (s : Interpreted Id) : PythonEvent Id → Option (Interpreted Id)
  | .takes => do
    guard (s.gil = .nobody)
    some { s with gil := .python }
  | .yields => do
    guard (s.gil = .python ∨ s.gil = .callback)
    some { s with gil := .nobody }
  | .createSubscriber => do
    guard (s.gil = .python)
    let async ← s.async.next i .registerCallback
    some { s with async := async }
  | .enterCallback => do
    guard (s.gil = .nobody ∧ s.async.loop.message.isSome = true)
    some { s with gil := .callback }
  | .leaveCallback => do
    guard (s.gil = .callback)
    let async ← s.async.next i .callback
    some ⟨async, .nobody⟩
  -- `~Subscriber` clears the flag and joins; nothing releases the lock meanwhile
  | .destroyNode => do
    guard (s.gil = .python ∧ (s.async.topic.subscribers i).isSome = true)
    let async ← s.async.next i .stop
    some ⟨async, .destructor⟩
  | .joined => do
    guard (s.gil = .destructor)
    let async ← s.async.next i (.topic (.destroy i))
    some ⟨async, .python⟩
  | .runs e => do
    guard (Unlocked i e = true)
    let async ← s.async.next i e
    some { s with async := async }

def interpreted (i : Id) : Machine (Interpreted Id) (PythonEvent Id) where
  initial := fun s => s = ⟨⟨⟨.init, fun _ => none, []⟩, false, .off, 0, []⟩, .nobody⟩
  next := Interpreted.next i

def InPython (allowed : State Id → Event Id → Prop) (s : Interpreted Id) : PythonEvent Id → Prop
  | .runs e => OnTopic allowed s.async e
  | _ => True

instance (allowed : State Id → Event Id → Prop) [∀ s e, Decidable (allowed s e)]
    (s : Interpreted Id) (e : PythonEvent Id) : Decidable (InPython allowed s e) :=
  match e with
  | .runs e => inferInstanceAs (Decidable (OnTopic allowed s.async e))
  | .takes | .yields | .createSubscriber | .enterCallback | .leaveCallback | .destroyNode
  | .joined => isTrue trivial

def Dies (i : Id) (e : PythonEvent Id) : Prop :=
  ∃ holding, e = .runs (.topic (.subscriberDies i holding))

variable {i : Id} {s t : Interpreted Id}

/-- Out of the thread's steps in the topic only the copy is left, and it keeps the message. -/
theorem InHand.own {s t : Async Id} {e : Event Id} (inHand : InHand i s)
    (acts : e.subscriber = some i) (alive : ∀ holding, e ≠ .subscriberDies i holding)
    (stepped : Topic.next s.topic e = some t.topic)
    (moved : loopAfter i s t.topic e = some t.loop) : InHand i t := by
  obtain ⟨active, _, outside, running⟩ := inHand.busy
  cases e with
  | publishRaw | publishLoaned | publisherDies | attach => cases acts
  | construct j =>
    obtain ⟨_, held, _⟩ := Option.bind_eq_some_iff.mp moved
    exact absurd (guard_passed.mp held) active
  | destroy j =>
    obtain ⟨_, held, _⟩ := Option.bind_eq_some_iff.mp moved
    rcases (guard_passed.mp held).2 with off | ended
    · exact absurd off active
    · exact absurd ended running
  | subscriberDies j holding =>
    cases acts
    exact absurd rfl (alive holding)
  | receive j call shutdown =>
    simp only [loopAfter, if_neg active, Option.bind_eq_bind, Option.bind_eq_some_iff] at moved
    obtain ⟨_, held, _⟩ := moved
    exact absurd (guard_passed.mp held).1 outside
  | wake j cause shutdown =>
    cases acts
    simp only [loopAfter, if_neg active, Option.bind_eq_bind, Option.bind_eq_some_iff] at moved
    obtain ⟨_, held, _⟩ := moved
    have inside := guard_passed.mp held
    obtain ⟨sub, call, _, _, here, waits, _⟩ := next_wake stepped
    rcases inHand with ⟨message, calling⟩ | ⟨_, other, header, publication, there, holds⟩
    · cases inside.symm.trans calling
    · obtain rfl := Option.some.inj (here.symm.trans there)
      cases waits.symm.trans holds
  | finish j =>
    cases acts
    simp only [loopAfter, if_neg active, Option.bind_eq_bind, Option.bind_eq_some_iff] at moved
    obtain ⟨_, held, before, here, sub, there, goes⟩ := moved
    have inside := guard_passed.mp held
    obtain ⟨other, call, header, publication, after, found, holds, done, left⟩ :=
      next_finish stepped
    obtain rfl := Option.some.inj (found.symm.trans here)
    obtain rfl := Option.some.inj ((left ▸ put_self _ i _).symm.trans there)
    rcases inHand with ⟨message, calling⟩ | ⟨_, other, header', publication', there', holds'⟩
    · cases inside.symm.trans calling
    · obtain rfl := Option.some.inj (found.symm.trans there')
      obtain ⟨rfl, rfl, rfl⟩ := Phase.holding.inj (holds.symm.trans holds')
      obtain rfl := Option.some.inj done
      refine .inl ⟨asyncCall.view header, (Option.some.inj goes).symm.trans ?_⟩
      simp [goesOn]

theorem NewsAhead.receives {s t : Async Id} {call : ReceiveCall} (news : NewsAhead i s)
    (stepped : Topic.next s.topic (.receive i call false) = some t.topic)
    (moved : loopAfter i s t.topic (.receive i call false) = some t.loop) : InHand i t := by
  obtain ⟨entering, sub, there, fresh⟩ := news
  simp only [loopAfter, entering, Option.bind_eq_bind, Option.bind_eq_some_iff, guard_passed,
    reduceCtorEq, if_false] at moved
  obtain ⟨_, ⟨_, rfl⟩, before, here, after, now, goes⟩ := moved
  simp only [Topic.next, Option.bind_eq_bind, Option.bind_eq_some_iff, guard_passed] at stepped
  obtain ⟨other, found, shm, locked, _, _, left⟩ := stepped
  obtain rfl := Option.some.inj (found.symm.trans there)
  obtain ⟨rfl, _⟩ := TopicShm.lockRobust_eq locked
  have old : ¬ other.lastSeq ≥ s.topic.shm.seq := UInt32.not_le.mpr fresh
  have taken : t.topic.subscribers i = some { other with
      phase := .holding asyncCall s.topic.shm.newest s.topic.published.length } := by
    rw [← Option.some.inj left, put_self]
    simp [receiveLocked, old, TopicShm.newest]
  obtain rfl := Option.some.inj (now.symm.trans taken)
  exact .inr ⟨(Option.some.inj goes).symm, _, _, _, taken, rfl⟩

/-- Whatever the thread does next brings it closer to the callback. -/
theorem Committed.own {s t : Async Id} {e : Event Id} (committed : Committed i s)
    (acts : e.subscriber = some i) (alive : ∀ holding, e ≠ .subscriberDies i holding)
    (calm : Interrupted i (.topic e) = false) (stepped : Topic.next s.topic e = some t.topic)
    (moved : loopAfter i s t.topic e = some t.loop) : Committed i t := by
  obtain ⟨active, _, running⟩ := committed.busy
  rcases committed with inHand | news
  · exact .inl (inHand.own acts alive stepped moved)
  · obtain ⟨entering, _⟩ := id news
    cases e with
    | publishRaw | publishLoaned | publisherDies | attach => cases acts
    | construct j =>
      obtain ⟨_, held, _⟩ := Option.bind_eq_some_iff.mp moved
      exact absurd (guard_passed.mp held) active
    | destroy j =>
      obtain ⟨_, held, _⟩ := Option.bind_eq_some_iff.mp moved
      rcases (guard_passed.mp held).2 with off | ended
      · exact absurd off active
      · exact absurd ended running
    | subscriberDies j holding =>
      cases acts
      exact absurd rfl (alive holding)
    | receive j call shutdown =>
      cases acts
      obtain rfl : shutdown = false := by simpa [Interrupted] using calm
      exact .inl (news.receives stepped moved)
    | wake | finish =>
      simp only [loopAfter, if_neg active, Option.bind_eq_bind, Option.bind_eq_some_iff] at moved
      obtain ⟨_, held, _⟩ := moved
      have receiving := guard_passed.mp held
      simp [entering] at receiving

theorem next_grows {s t : State Id} {e : Event Id} (counts : NoWrap s e)
    (taken : next s e = some t) : s.shm.seq ≤ t.shm.seq := by
  have grows : s.shm.seq + 1 ≠ 0 → s.shm.seq ≤ s.shm.seq + 1 := by
    generalize s.shm.seq = n
    intro counts
    have counts : n.toNat + 1 ≠ 2 ^ 32 := by
      intro wraps
      exact counts (UInt32.toNat.inj (by simp [UInt32.toNat_add, wraps]))
    rw [UInt32.le_iff_toNat_le, UInt32.toNat_add]
    have := n.toNat_lt
    simp only [UInt32.toNat_one]
    omega
  cases e with
  | publishRaw | publishLoaned =>
    obtain ⟨shm, done, left⟩ := Option.bind_eq_some_iff.mp taken
    obtain rfl := Option.some.inj left
    exact (publishLocked_change done).1 ▸ grows counts
  | publisherDies p count =>
    rw [(next_publisherDies taken).2]
    split
    · exact UInt32.le_refl _
    · exact grows counts
  | attach | construct | destroy | receive | wake | finish | subscriberDies =>
    refine ((next_counter ?_ taken).resolve_right ?_).symm ▸ UInt32.le_refl _
    · trivial
    · simp [Event.broadcasts]

/-- The destructor waits for a thread that waits for the interpreter lock, or will. -/
structure Hung (i : Id) (s : Interpreted Id) : Prop where
  gil : s.gil = .destructor
  committed : Committed i s.async

theorem Hung.step {e : PythonEvent Id} (hung : Hung i s) (counts : InPython NoWrap s e)
    (alive : ¬ Dies i e) (taken : (interpreted i).next s e = some t) : Hung i t := by
  obtain ⟨active, untested, running⟩ := hung.committed.busy
  cases e with
  | takes | yields | createSubscriber | enterCallback | leaveCallback | destroyNode =>
    obtain ⟨_, held, _⟩ := Option.bind_eq_some_iff.mp taken
    simp [hung.gil] at held
  | joined =>
    obtain ⟨_, _, taken⟩ := Option.bind_eq_some_iff.mp taken
    obtain ⟨after, moved, _⟩ := Option.bind_eq_some_iff.mp taken
    obtain ⟨_, _, _, _, loop⟩ := async_topic moved
    have acts : (Event.destroy i).subscriber = some i := rfl
    rw [loopMoves, if_pos acts] at loop
    obtain ⟨_, held, _⟩ := Option.bind_eq_some_iff.mp loop
    rcases (guard_passed.mp held).2 with off | ended
    · exact absurd off active
    · exact absurd ended running
  | runs e =>
    obtain ⟨_, held, taken⟩ := Option.bind_eq_some_iff.mp taken
    have unlocked := guard_passed.mp held
    obtain ⟨after, moved, taken⟩ := Option.bind_eq_some_iff.mp taken
    obtain rfl := Option.some.inj taken
    refine ⟨hung.gil, ?_⟩
    cases e with
    | registerCallback | callback | stop => exact Bool.noConfusion unlocked
    | test shutdown =>
      obtain ⟨_, held, _⟩ := Option.bind_eq_some_iff.mp moved
      exact absurd (guard_passed.mp held) untested
    | topic e =>
      obtain ⟨stepped, _, _, _, loop⟩ := async_topic moved
      by_cases acts : e.subscriber = some i
      · rw [loopMoves, if_pos acts] at loop
        refine hung.committed.own acts ?_ ?_ stepped loop
        · rintro holding rfl
          cases acts
          exact alive ⟨holding, rfl⟩
        · cases e with
          | destroy j => rfl
          | _ => simpa [Unlocked] using unlocked
      · rw [loopMoves, if_neg acts] at loop
        have same := Option.some.inj loop
        have grows := next_grows counts stepped
        rcases hung.committed with inHand | ⟨entering, sub, there, fresh⟩
        · left
          rw [InHand, ← same, next_frame stepped acts]
          exact inHand
        · exact .inr ⟨same.symm.trans entering, sub, (next_frame stepped acts).trans there,
            UInt32.lt_of_lt_of_le fresh grows⟩

theorem Hung.waits (hung : Hung i s) : (interpreted i).next s .joined = none := by
  rw [Option.eq_none_iff_forall_ne_some]
  intro t taken
  have dies : ¬ Dies i (.joined : PythonEvent Id) := by
    rintro ⟨holding, same⟩
    cases same
  have after := (hung.step (e := .joined) trivial dies taken).gil
  obtain ⟨_, _, taken⟩ := Option.bind_eq_some_iff.mp taken
  obtain ⟨_, _, taken⟩ := Option.bind_eq_some_iff.mp taken
  obtain rfl := Option.some.inj taken
  cases after

/-- The flag is cleared before the join. -/
def JoinsStopped (i : Id) (s : Interpreted Id) : Prop :=
  s.gil = .destructor → s.async.running = false ∧ (s.async.topic.subscribers i).isSome = true

theorem next_there {s t : State Id} {e : Event Id} (alive : NoDeath s e) (stays : e ≠ .destroy i)
    (there : (s.subscribers i).isSome = true) (taken : next s e = some t) :
    (t.subscribers i).isSome = true := by
  by_cases acts : e.subscriber = some i
  · cases e with
    | publishRaw | publishLoaned | publisherDies | attach => cases acts
    | subscriberDies => exact alive.elim
    | destroy j =>
      cases acts
      exact absurd rfl stays
    | construct j =>
      cases acts
      obtain ⟨_, _, _, rfl⟩ := next_construct taken
      simp
    | receive j call shutdown =>
      cases acts
      obtain ⟨_, _, _, _, _, _, _, rfl⟩ := next_receive taken
      simp
    | wake j cause shutdown =>
      cases acts
      obtain ⟨_, _, _, _, _, _, _, _, rfl⟩ := next_wake taken
      simp
    | finish j =>
      cases acts
      obtain ⟨_, _, _, _, _, _, _, _, rfl⟩ := next_finish taken
      simp
  · rw [next_frame taken acts]
    exact there

theorem JoinsStopped.step {e : PythonEvent Id} (before : JoinsStopped i s)
    (alive : InPython NoDeath s e) (taken : (interpreted i).next s e = some t) :
    JoinsStopped i t := by
  intro joins
  cases e with
  | takes | yields | enterCallback =>
    obtain ⟨_, _, taken⟩ := Option.bind_eq_some_iff.mp taken
    obtain rfl := Option.some.inj taken
    cases joins
  | createSubscriber =>
    obtain ⟨_, held, taken⟩ := Option.bind_eq_some_iff.mp taken
    obtain ⟨_, _, taken⟩ := Option.bind_eq_some_iff.mp taken
    obtain rfl := Option.some.inj taken
    exact nomatch joins.symm.trans (guard_passed.mp held)
  | leaveCallback | joined =>
    obtain ⟨_, _, taken⟩ := Option.bind_eq_some_iff.mp taken
    obtain ⟨_, _, taken⟩ := Option.bind_eq_some_iff.mp taken
    obtain rfl := Option.some.inj taken
    cases joins
  | destroyNode =>
    obtain ⟨_, held, taken⟩ := Option.bind_eq_some_iff.mp taken
    obtain ⟨after, moved, taken⟩ := Option.bind_eq_some_iff.mp taken
    obtain rfl := Option.some.inj taken
    obtain rfl := Option.some.inj moved
    exact ⟨rfl, (guard_passed.mp held).2⟩
  | runs e =>
    obtain ⟨_, held, taken⟩ := Option.bind_eq_some_iff.mp taken
    have unlocked := guard_passed.mp held
    obtain ⟨after, moved, taken⟩ := Option.bind_eq_some_iff.mp taken
    obtain rfl := Option.some.inj taken
    obtain ⟨stopped, there⟩ := before joins
    cases e with
    | registerCallback | callback | stop => exact Bool.noConfusion unlocked
    | test shutdown =>
      obtain ⟨_, _, moved⟩ := Option.bind_eq_some_iff.mp moved
      obtain rfl := Option.some.inj moved
      exact ⟨stopped, there⟩
    | topic e =>
      obtain ⟨stepped, running, _⟩ := async_topic moved
      refine ⟨running.trans stopped, next_there alive ?_ there stepped⟩
      rintro rfl
      simp [Unlocked] at unlocked

def Alone (i : Id) (e : AsyncEvent Id) : Prop :=
  e = .test false ∨ e = .topic (.receive i asyncCall false) ∨
    e = .topic (.wake i .timedOut false)

theorem Alone.unlocked {e : AsyncEvent Id} (alone : Alone i e) :
    Unlocked i e = true ∧ InPython NoWrap s (.runs e) ∧ ¬ Dies i (.runs e) := by
  have apart : ∀ holding, e ≠ .topic (.subscriberDies i holding) := by
    rintro holding rfl
    simp [Alone] at alone
  have lives : ¬ Dies i (.runs e) := by
    rintro ⟨holding, same⟩
    exact apart holding (PythonEvent.runs.inj same)
  rcases alone with rfl | rfl | rfl
  · exact ⟨rfl, trivial, lives⟩
  · exact ⟨by simp [Unlocked, Interrupted], trivial, lives⟩
  · exact ⟨by simp [Unlocked, Interrupted], trivial, lives⟩

/-- A receive that finds nothing new waits, and its time limit lets the thread go on. -/
theorem Joining.quiet {own : AsyncEvent Id → Prop} {s : Async Id} (tests : own (.test false))
    (receives : own (.topic (.receive i asyncCall false)))
    (times : own (.topic (.wake i .timedOut false))) (joining : Joining i .entering s)
    (nothing : ¬ NewsAhead i s) : (async i).EndsBy own (Joining i .ended) 3 s := by
  obtain ⟨sub, there, idle⟩ := joining.there
  have idle : sub.phase = .idle := idle
  have old : sub.lastSeq ≥ s.topic.shm.seq :=
    UInt32.not_lt.mp fun fresh => nothing ⟨joining.place, sub, there, fresh⟩
  have locked : s.topic.shm.lockRobust = some { s.topic.shm with mutex := .held } := by
    rw [TopicShm.lockRobust, joining.free]
    rfl
  have passes : (guard True : Option Unit) = some () := guard_passed.mpr trivial
  have entered : next s.topic (.receive i asyncCall false) =
      some ({ s.topic with shm := { s.topic.shm with mutex := .unlocked } }.put i
        { sub with phase := .waiting asyncCall }) := by
    simp only [next, Option.bind_eq_bind, there, locked, idle, passes, Option.bind_some]
    simp [receiveLocked, old, asyncCall, ReceiveCall.timeoutMs, TopicShm.unlock]
  have taken : (async i).next s (.topic (.receive i asyncCall false)) = some { s with
      topic := { s.topic with shm := { s.topic.shm with mutex := .unlocked } }.put i
        { sub with phase := .waiting asyncCall }
      loop := .receiving } := by
    simp [async, Async.next, entered, loopMoves, loopAfter, Event.subscriber, joining.place, there,
      goesOn]
  exact .step receives taken (Joining.waiting tests times
    ⟨joining.stopped, rfl, rfl, _, put_self _ i _, rfl⟩ (put_self _ i _) rfl)

theorem Joining.alone {a : Async Id} (joining : Joining i a.loop a) (registered : a.loop ≠ .off)
    (free : ¬ Committed i a) : (async i).EndsBy (Alone i) (Joining i .ended) 3 a := by
  obtain ⟨nothing, quiet⟩ := not_or.mp free
  have tests : Alone i (.test false) := .inl rfl
  have times : Alone i (.topic (.wake i .timedOut false)) := .inr (.inr rfl)
  cases inside : a.loop with
  | off => exact absurd inside registered
  | calling message => exact absurd (.inl ⟨message, inside⟩) nothing
  | ended => exact .here (inside ▸ joining)
  | test => exact .mono (by decide) (Joining.test tests (inside ▸ joining))
  | entering => exact Joining.quiet tests (.inr (.inl rfl)) times (inside ▸ joining) quiet
  | receiving =>
    obtain ⟨sub, there, within⟩ := joining.there
    rw [inside] at within
    cases phase : sub.phase with
    | idle =>
      rw [phase] at within
      exact nomatch within
    | waiting call =>
      rw [phase] at within
      obtain rfl := Option.some.inj within
      exact .mono (by decide) (Joining.waiting tests times (inside ▸ joining) there phase)
    | holding call header publication =>
      rw [phase] at within
      obtain rfl := Option.some.inj within
      exact absurd (.inr ⟨inside, sub, header, publication, there, phase⟩) nothing

end

end ComIpc.Topic
