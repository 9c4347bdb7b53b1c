import ComIpc.Topic.Backlog
import Mathlib.Data.List.Forall2

/-! A subscriber with a callback.

`registerCallback` starts a thread that receives for ever and hands each message to the
callback. The destructor clears the flag and joins the thread. Every header that the thread
receives goes to the callback once, in order; after the flag is cleared one more may, and
after the destructor none.
-/

set_option autoImplicit false

namespace ComIpc.Topic

open Semantics

inductive Loop where
  /-- No callback is registered. -/
  | off
  | test
  | entering
  /-- Inside of `receiveLoaned`, behind its first tenure of the mutex. -/
  | receiving
  | calling (message : Returned)
  | ended
  deriving DecidableEq, Repr

def Loop.message : Loop → Option Returned
  | calling message => some message
  | off | test | entering | receiving | ended => none

theorem Loop.message_calling {loop : Loop} {message : Returned}
    (inHand : loop.message = some message) : loop = .calling message := by
  cases loop with
  | calling other => exact congrArg calling (Option.some.inj inHand)
  | off | test | entering | receiving | ended => exact nomatch inHand

/-- The topic and one of its subscribers from construction to destruction, with the thread. -/
structure Async (Id : Type) where
  topic : State Id
  running : Bool
  loop : Loop
  /-- What was received before the callback was registered. -/
  earlier : Nat
  calls : List Returned

inductive AsyncEvent (Id : Type) where
  | registerCallback
  | test (shutdown : Bool)
  | callback
  /-- The destructor clears `async_running_`. -/
  | stop
  | topic (e : Event Id)
  deriving DecidableEq, Repr

/-- `asyncLoop` waits half a second at most. -/
def asyncCall : ReceiveCall := .loaned 500

def goesOn (before after : Subscriber) : Loop :=
  match after.phase with
  | .idle =>
    match after.deliveries.drop before.deliveries.length with
    | [] => .test
    | d :: _ => .calling d.returned
  | .waiting _ | .holding _ _ _ => .receiving

section
variable {Id : Type} [DecidableEq Id]

/-- The thread's part in a step of its subscriber. Without a callback the owner receives. -/
def loopAfter (i : Id) (s : Async Id) (after : State Id) : Event Id → Option Loop
  | .construct _ => do
    guard (s.loop = .off)
    some .off
  | .receive _ call _ => do
    if s.loop = .off then some .off
    else
      guard (s.loop = .entering ∧ call = asyncCall)
      some (goesOn (← s.topic.subscribers i) (← after.subscribers i))
  | .wake _ _ _ | .finish _ => do
    if s.loop = .off then some .off
    else
      guard (s.loop = .receiving)
      some (goesOn (← s.topic.subscribers i) (← after.subscribers i))
  -- the destructor has cleared the flag and joined the thread
  | .destroy _ => do
    guard (s.running = false ∧ (s.loop = .off ∨ s.loop = .ended))
    some .ended
  | .subscriberDies _ _ => some .ended
  | .publishRaw _ | .publishLoaned _ | .publisherDies _ _ | .attach => some s.loop

def loopMoves (i : Id) (s : Async Id) (after : State Id) (e : Event Id) : Option Loop :=
  if e.subscriber = some i then loopAfter i s after e else some s.loop

def Async.next (i : Id) (s : Async Id) : AsyncEvent Id → Option (Async Id)
  | .registerCallback => do
    let sub ← s.topic.subscribers i
    -- a second registration replaces the callback and starts no second thread
    if s.running then some s
    else
      guard (s.loop = .off ∧ sub.phase = .idle)
      some { s with running := true, loop := .test, earlier := sub.deliveries.length }
  | .test shutdown => do
    guard (s.loop = .test)
    some { s with loop := if s.running = true ∧ shutdown = false then .entering else .ended }
  | .callback => do
    let message ← s.loop.message
    some { s with loop := .test, calls := s.calls ++ [message] }
  | .stop => some { s with running := false }
  | .topic e => do
    let after ← Topic.next s.topic e
    let loop ← loopMoves i s after e
    some { s with topic := after, loop := loop }

def async (i : Id) : Machine (Async Id) (AsyncEvent Id) where
  initial := fun s => s = ⟨⟨.init, fun _ => none, []⟩, false, .off, 0, []⟩
  next := Async.next i

def OnTopic (allowed : State Id → Event Id → Prop) (s : Async Id) : AsyncEvent Id → Prop
  | .topic e => allowed s.topic e
  | .registerCallback | .test _ | .callback | .stop => True

instance (allowed : State Id → Event Id → Prop) [∀ s e, Decidable (allowed s e)] (s : Async Id)
    (e : AsyncEvent Id) : Decidable (OnTopic allowed s e) :=
  match e with
  | .topic e => inferInstanceAs (Decidable (allowed s.topic e))
  | .registerCallback | .test _ | .callback | .stop => isTrue trivial

variable {i : Id} {s t : Async Id}

theorem async_topic {e : Event Id} (taken : (async i).next s (.topic e) = some t) :
    Topic.next s.topic e = some t.topic ∧ t.running = s.running ∧ t.earlier = s.earlier ∧
      t.calls = s.calls ∧
      loopMoves i s t.topic e = some t.loop := by
  simp only [async, Async.next, Option.bind_eq_bind, Option.bind_eq_some_iff,
    Option.some.injEq] at taken
  obtain ⟨after, stepped, loop, moved, rfl⟩ := taken
  exact ⟨stepped, rfl, rfl, rfl, moved⟩

theorem async_still {e : AsyncEvent Id} (taken : (async i).next s e = some t)
    (still : ∀ f, e ≠ .topic f) : t.topic = s.topic := by
  cases e with
  | topic f => exact absurd rfl (still f)
  | registerCallback =>
    simp only [async, Async.next, Option.bind_eq_bind, Option.bind_eq_some_iff] at taken
    obtain ⟨sub, _, taken⟩ := taken
    split at taken
    · exact Option.some.inj taken ▸ rfl
    · obtain ⟨_, _, taken⟩ := Option.bind_eq_some_iff.mp taken
      exact Option.some.inj taken ▸ rfl
  | test shutdown =>
    obtain ⟨_, _, taken⟩ := Option.bind_eq_some_iff.mp taken
    exact Option.some.inj taken ▸ rfl
  | callback =>
    obtain ⟨_, _, taken⟩ := Option.bind_eq_some_iff.mp taken
    exact Option.some.inj taken ▸ rfl
  | stop => exact Option.some.inj taken ▸ rfl

theorem reachable_topic {allowed : State Id → Event Id → Prop}
    (reach : (async i).ReachableWhen (OnTopic allowed) s) :
    (machine Id).ReachableWhen allowed s.topic := by
  induction reach with
  | start init => exact init ▸ .start rfl
  | @step s t e _ ok taken ih =>
    cases e with
    | topic e => exact ih.step ok (async_topic taken).1
    | registerCallback | test | callback | stop =>
      rw [async_still taken fun _ => nofun]
      exact ih

end

section
variable {Id : Type} {i : Id} {s t : Async Id}

def Phase.call : Phase → Option ReceiveCall
  | idle => none
  | waiting call | holding call _ _ => some call

theorem Entered.call {shm : TopicShm} {lastSeq : UInt32} {call : ReceiveCall} {publications : Nat}
    {phase : Phase} (entered : Entered shm lastSeq call publications phase) :
    ∀ other ∈ phase.call, other = call := by
  cases entered with
  | failed => exact fun _ none => nomatch none
  | blocked | taken => exact fun _ same => (Option.some.inj same).symm

/-- Where the thread finds its subscriber between two steps. -/
def Within : Loop → Phase → Prop
  | .off, _ => True
  | .receiving, phase => phase.call = some asyncCall
  | .test, phase | .entering, phase | .calling _, phase | .ended, phase => phase = .idle

theorem goesOn_within {before after : Subscriber}
    (own : ∀ call ∈ after.phase.call, call = asyncCall) :
    Within (goesOn before after) after.phase := by
  unfold goesOn
  cases phase : after.phase with
  | idle =>
    cases after.deliveries.drop before.deliveries.length with
    | nil => rfl
    | cons => rfl
  | waiting call =>
    rw [phase] at own
    exact congrArg some (own call rfl)
  | holding call =>
    rw [phase] at own
    exact congrArg some (own call rfl)

theorem goesOn_same {before after : Subscriber} (same : after.deliveries = before.deliveries) :
    (goesOn before after).message = none ∧ goesOn before after ≠ .off := by
  unfold goesOn
  rw [same, List.drop_length]
  split
  · exact ⟨rfl, nofun⟩
  · exact ⟨rfl, nofun⟩
  · exact ⟨rfl, nofun⟩

theorem goesOn_delivered {before after : Subscriber} {d : Delivery} (idle : after.phase = .idle)
    (more : after.deliveries = before.deliveries ++ [d]) :
    goesOn before after = .calling d.returned := by
  rw [goesOn, idle, more, List.drop_left]

def Gives (published : List MessageHeader) (publication : Nat) (call : Returned) : Prop :=
  ∃ header, nth published publication = some header ∧ call = asyncCall.view header

structure Served (i : Id) (s : Async Id) : Prop where
  given : ∃ publications : List Nat, publications.Pairwise (· < ·) ∧
    List.Forall₂ (Gives s.topic.published) publications s.calls
  off : s.loop = .off → s.calls = []
  alive : ∀ message ∈ s.loop.message, ∃ sub, s.topic.subscribers i = some sub
  inside : ∀ sub, s.topic.subscribers i = some sub → Within s.loop sub.phase
  listed : s.loop ≠ .off → ∀ sub, s.topic.subscribers i = some sub →
    s.earlier ≤ sub.deliveries.length ∧ (∀ d ∈ sub.deliveries.drop s.earlier, d.call = asyncCall) ∧
      s.calls ++ s.loop.message.toList = (sub.deliveries.drop s.earlier).map Delivery.returned

theorem Gives.append {published : List MessageHeader} {publications : List Nat}
    {calls : List Returned} (given : List.Forall₂ (Gives published) publications calls)
    (more : List MessageHeader) :
    List.Forall₂ (Gives (published ++ more)) publications calls := by
  apply given.imp
  rintro n call ⟨header, found, same⟩
  exact ⟨header, nth_append more found, same⟩

theorem Follows.gives {published : List MessageHeader} {sub : Subscriber}
    (follows : Follows published sub) (earlier : Nat)
    (own : ∀ d ∈ sub.deliveries.drop earlier, d.call = asyncCall) :
    ∃ publications : List Nat, publications.Pairwise (· < ·) ∧ List.Forall₂ (Gives published)
      publications ((sub.deliveries.drop earlier).map Delivery.returned) := by
  refine ⟨(sub.deliveries.drop earlier).map Delivery.publication, ?_, ?_⟩
  · rw [List.map_drop]
    exact follows.ordered.sublist (List.drop_sublist _ _)
  · rw [List.forall₂_map_left_iff, List.forall₂_map_right_iff]
    apply List.forall₂_same.mpr
    intro d member
    obtain ⟨header, found, same⟩ := follows.exact d (List.mem_of_mem_drop member)
    exact ⟨header, found, own d member ▸ same⟩

theorem Change.grows [DecidableEq Id] {s t : State Id} (change : Change s t) :
    ∃ more, t.published = s.published ++ more := by
  cases change with
  | published p _ _ => exact ⟨_, rfl⟩
  | quiet | joined | moved => exact ⟨[], (List.append_nil _).symm⟩

/-- What the thread does to its subscriber in one step inside of `receiveLoaned`. -/
inductive Inside (before after : Subscriber) : Prop where
  | waits : after.deliveries = before.deliveries →
      (∀ call ∈ after.phase.call, call = asyncCall) → Inside before after
  | returns (d : Delivery) : after.phase = .idle → d.call = asyncCall →
      after.deliveries = before.deliveries ++ [d] → Inside before after

theorem Served.given_grows (served : Served i s)
    (more : ∃ more, t.topic.published = s.topic.published ++ more) (calls : t.calls = s.calls) :
    ∃ publications : List Nat, publications.Pairwise (· < ·) ∧
      List.Forall₂ (Gives t.topic.published) publications t.calls := by
  obtain ⟨more, grown⟩ := more
  obtain ⟨publications, ordered, given⟩ := served.given
  exact ⟨publications, ordered, grown ▸ calls ▸ Gives.append given more⟩

theorem Served.goesOn {before after : Subscriber} (served : Served i s)
    (quiet : s.loop.message = none) (active : s.loop ≠ .off)
    (there : s.topic.subscribers i = some before) (now : t.topic.subscribers i = some after)
    (more : ∃ more, t.topic.published = s.topic.published ++ more) (calls : t.calls = s.calls)
    (earlier : t.earlier = s.earlier) (inside : Inside before after)
    (loop : t.loop = Topic.goesOn before after) : Served i t := by
  obtain ⟨short, own, listed⟩ := served.listed active before there
  rw [quiet, Option.toList_none, List.append_nil] at listed
  have only : ∀ sub, t.topic.subscribers i = some sub → sub = after := by
    intro sub found
    exact Option.some.inj (found.symm.trans now)
  have given := served.given_grows more calls
  cases inside with
  | waits same own' =>
    obtain ⟨nothing, on⟩ := goesOn_same same
    refine ⟨given, ?_, ?_, ?_, ?_⟩
    · exact fun off => absurd (loop ▸ off) on
    · exact fun _ _ => ⟨after, now⟩
    · intro sub found
      exact only sub found ▸ loop ▸ goesOn_within own'
    · intro _ sub found
      rw [only sub found, same, earlier, calls, loop, nothing, Option.toList_none, List.append_nil]
      exact ⟨short, own, listed⟩
  | returns d idle call grown =>
    have calling : t.loop = .calling d.returned := loop.trans (goesOn_delivered idle grown)
    refine ⟨given, ?_, ?_, ?_, ?_⟩
    · exact fun off => nomatch calling.symm.trans off
    · exact fun _ _ => ⟨after, now⟩
    · intro sub found
      rw [only sub found, calling]
      exact idle
    · intro _ sub found
      rw [only sub found, grown, earlier, calls, calling, List.drop_append_of_le_length short,
        List.map_append, ← listed]
      refine ⟨?_, ?_, rfl⟩
      · rw [List.length_append]
        omega
      · intro d' member
        rcases List.mem_append.mp member with old | new
        · exact own d' old
        · exact List.mem_singleton.mp new ▸ call

theorem Served.still (served : Served i s)
    (same : t.topic.subscribers i = s.topic.subscribers i)
    (more : ∃ more, t.topic.published = s.topic.published ++ more) (calls : t.calls = s.calls)
    (earlier : t.earlier = s.earlier) (loop : t.loop = s.loop) : Served i t where
  given := served.given_grows more calls
  off := by
    rw [loop, calls]
    exact served.off
  alive := by
    rw [loop, same]
    exact served.alive
  inside := by
    rw [loop, same]
    exact served.inside
  listed := by
    rw [loop, same, calls, earlier]
    exact served.listed

theorem Served.gone (served : Served i s)
    (absent : t.topic.subscribers i = none)
    (more : ∃ more, t.topic.published = s.topic.published ++ more) (calls : t.calls = s.calls)
    (ended : t.loop = .ended) : Served i t where
  given := served.given_grows more calls
  off := fun off => nomatch ended.symm.trans off
  alive := by
    rw [ended]
    exact fun _ member => nomatch member
  inside := fun _ found => nomatch absent.symm.trans found
  listed := by
    intro _ sub found
    exact nomatch absent.symm.trans found

theorem Served.idle (served : Served i s) (off : s.loop = .off)
    (more : ∃ more, t.topic.published = s.topic.published ++ more) (calls : t.calls = s.calls)
    (loop : t.loop = .off) : Served i t where
  given := served.given_grows more calls
  off := fun _ => calls.trans (served.off off)
  alive := by
    rw [loop]
    exact fun _ member => nomatch member
  inside := fun _ _ => loop ▸ trivial
  listed := fun active => absurd loop active

theorem loopAfter_receive {after : State Id} {call : ReceiveCall} {shutdown : Bool} {loop : Loop}
    (moved : loopAfter i s after (.receive i call shutdown) = some loop)
    {before sub : Subscriber} (there : s.topic.subscribers i = some before)
    (now : after.subscribers i = some sub) : s.loop = .off ∧ loop = .off ∨
      s.loop = .entering ∧ call = asyncCall ∧ loop = goesOn before sub := by
  simp only [loopAfter, there, now, Option.bind_eq_bind, Option.bind_some] at moved
  split at moved
  · rename_i off
    exact .inl ⟨off, (Option.some.inj moved).symm⟩
  · obtain ⟨_, held, same⟩ := Option.bind_eq_some_iff.mp moved
    obtain ⟨entering, own⟩ := guard_passed.mp held
    exact .inr ⟨entering, own, (Option.some.inj same).symm⟩

theorem loopAfter_later {after : State Id} {e : Event Id} {loop : Loop}
    (moved : loopAfter i s after e = some loop)
    (later : (∃ cause shutdown, e = .wake i cause shutdown) ∨ e = .finish i)
    {before sub : Subscriber} (there : s.topic.subscribers i = some before)
    (now : after.subscribers i = some sub) : s.loop = .off ∧ loop = .off ∨
      s.loop = .receiving ∧ loop = goesOn before sub := by
  rcases later with ⟨_, _, rfl⟩ | rfl
  all_goals
    simp only [loopAfter, there, now, Option.bind_eq_bind, Option.bind_some] at moved
    split at moved
    · rename_i off
      exact .inl ⟨off, (Option.some.inj moved).symm⟩
    · obtain ⟨_, held, same⟩ := Option.bind_eq_some_iff.mp moved
      exact .inr ⟨guard_passed.mp held, (Option.some.inj same).symm⟩

end

section
variable {Id : Type} [DecidableEq Id] {i : Id} {s t : Async Id}

theorem Served.own {e : Event Id} (served : Served i s) (acts : e.subscriber = some i)
    (stepped : Topic.next s.topic e = some t.topic) (calls : t.calls = s.calls)
    (earlier : t.earlier = s.earlier) (moved : loopAfter i s t.topic e = some t.loop)
    (more : ∃ more, t.topic.published = s.topic.published ++ more) : Served i t := by
  have quiet : ∀ {loop : Loop}, s.loop = loop → loop.message = none → s.loop.message = none :=
    fun same silent => same ▸ silent
  cases e with
  | publishRaw | publishLoaned | publisherDies | attach => cases acts
  | construct j =>
    cases acts
    obtain ⟨_, held, same⟩ := Option.bind_eq_some_iff.mp moved
    exact served.idle (guard_passed.mp held) more calls (Option.some.inj same).symm
  | destroy j =>
    cases acts
    obtain ⟨shm, _, after⟩ := next_destroy stepped
    obtain ⟨_, _, same⟩ := Option.bind_eq_some_iff.mp moved
    refine served.gone ?_ more calls (Option.some.inj same).symm
    rw [after]
    exact Function.update_self ..
  | subscriberDies j holding =>
    cases acts
    obtain ⟨shm, _, after⟩ := next_subscriberDies stepped
    refine served.gone ?_ more calls (Option.some.inj moved).symm
    rw [after]
    exact Function.update_self ..
  | receive j call shutdown =>
    cases acts
    obtain ⟨sub, phase, shm, there, _, _, entered, after⟩ := next_receive stepped
    have now : t.topic.subscribers i = some { sub with phase := phase } := by
      rw [after, put_self]
    rcases loopAfter_receive moved there now with ⟨off, still⟩ | ⟨entering, rfl, loop⟩
    · exact served.idle off more calls still
    · exact served.goesOn (quiet entering rfl) (entering ▸ nofun) there now more calls earlier
        (.waits rfl entered.call) loop
  | wake j cause shutdown =>
    cases acts
    obtain ⟨sub, call, phase, shm, there, waits, _, entered, after⟩ := next_wake stepped
    have now : t.topic.subscribers i = some { sub with phase := phase } := by
      rw [after, put_self]
    rcases loopAfter_later moved (.inl ⟨cause, shutdown, rfl⟩) there now with
      ⟨off, still⟩ | ⟨receiving, loop⟩
    · exact served.idle off more calls still
    · have own := served.inside sub there
      rw [receiving, waits] at own
      obtain rfl := Option.some.inj own
      exact served.goesOn (quiet receiving rfl) (receiving ▸ nofun) there now more calls earlier
        (.waits rfl entered.call) loop
  | finish j =>
    cases acts
    obtain ⟨sub, call, header, publication, sub', there, held, done, after⟩ := next_finish stepped
    have now : t.topic.subscribers i = some sub' := by
      rw [after, put_self]
    rcases loopAfter_later moved (.inr rfl) there now with ⟨off, still⟩ | ⟨receiving, loop⟩
    · exact served.idle off more calls still
    · have own := served.inside sub there
      rw [receiving, held] at own
      have same : call = asyncCall := Option.some.inj own
      have inside : Inside sub sub' := by
        rcases finish_cases done with rfl | rfl
        · exact .waits rfl fun _ member => nomatch member
        · exact .returns _ rfl same rfl
      exact served.goesOn (quiet receiving rfl) (receiving ▸ nofun) there now more calls earlier
        inside loop

theorem Served.step {e : AsyncEvent Id} (served : Served i s)
    (consistent : Consistent s.topic) (whole : OnTopic CompleteOrUntouched s e)
    (taken : (async i).next s e = some t) : Served i t := by
  have same : ∃ more, s.topic.published = s.topic.published ++ more :=
    ⟨[], (List.append_nil _).symm⟩
  cases e with
  | topic e =>
    obtain ⟨stepped, _, earlier, calls, moved⟩ := async_topic taken
    have more := (next_change whole stepped).grows
    by_cases acts : e.subscriber = some i
    · rw [loopMoves, if_pos acts] at moved
      exact served.own acts stepped calls earlier moved more
    · rw [loopMoves, if_neg acts] at moved
      exact served.still (next_frame stepped acts) more calls earlier (Option.some.inj moved).symm
  | registerCallback =>
    simp only [async, Async.next, Option.bind_eq_bind, Option.bind_eq_some_iff] at taken
    obtain ⟨sub, there, taken⟩ := taken
    split at taken
    · exact Option.some.inj taken ▸ served
    · obtain ⟨_, held, taken⟩ := Option.bind_eq_some_iff.mp taken
      obtain ⟨off, idle⟩ := guard_passed.mp held
      obtain rfl := Option.some.inj taken
      have only : ∀ other, s.topic.subscribers i = some other → other = sub := by
        intro other here
        exact Option.some.inj (here.symm.trans there)
      refine ⟨served.given, nofun, (fun _ member => nomatch member), ?_, ?_⟩
      · intro other here
        exact only other here ▸ idle
      · intro _ other here
        rw [only other here]
        simp [served.off off, Loop.message]
  | test shutdown =>
    obtain ⟨_, held, taken⟩ := Option.bind_eq_some_iff.mp taken
    have testing := guard_passed.mp held
    have listed := served.listed (testing ▸ nofun)
    have inside := served.inside
    rw [testing] at listed inside
    obtain rfl := Option.some.inj taken
    split
    · exact ⟨served.given, nofun, (fun _ member => nomatch member), inside, fun _ => listed⟩
    · exact ⟨served.given, nofun, (fun _ member => nomatch member), inside, fun _ => listed⟩
  | callback =>
    obtain ⟨message, inHand, taken⟩ := Option.bind_eq_some_iff.mp taken
    obtain ⟨sub, there⟩ := served.alive message inHand
    have calling := Loop.message_calling inHand
    have active : s.loop ≠ .off := calling ▸ nofun
    obtain ⟨short, own, listed⟩ := served.listed active sub there
    rw [inHand, Option.toList_some] at listed
    obtain rfl := Option.some.inj taken
    have given := (consistent.follows i sub there).gives s.earlier own
    refine ⟨listed ▸ given, nofun, (fun _ member => nomatch member), ?_, ?_⟩
    · intro other here
      have inside := served.inside other here
      rw [calling] at inside
      exact inside
    · intro _ found here
      obtain rfl := Option.some.inj (there.symm.trans here)
      exact ⟨short, own, (List.append_nil _).trans listed⟩
  | stop =>
    obtain rfl := Option.some.inj taken
    exact ⟨served.given, served.off, served.alive, served.inside, served.listed⟩

theorem reachable_served (reach : (async i).ReachableWhen (OnTopic CompleteOrUntouched) s) :
    Served i s := by
  apply reach.invariant_of (Served i)
  · rintro _ rfl
    exact ⟨⟨[], .nil, .nil⟩, fun _ => rfl, (fun _ member => nomatch member), fun _ _ => trivial,
      fun active => absurd rfl active⟩
  · intro s e t before served whole taken
    exact served.step (reachable_consistent (reachable_topic before)) whole taken

structure CalledBack (i : Id) (s : Async Id) : Prop where
  /-- It is given headers of publications, later ones later. -/
  given : ∃ publications : List Nat, publications.Pairwise (· < ·) ∧
    List.Forall₂ (Gives s.topic.published) publications s.calls
  /-- It misses none of what the thread receives, up to one that the thread has in hand. -/
  complete : ∀ sub, s.topic.subscribers i = some sub → s.loop ≠ .off →
    s.calls ++ s.loop.message.toList = (sub.deliveries.drop s.earlier).map Delivery.returned

/-- Every callback is one delivery, in order, whatever the other processes do. -/
theorem callback_gets_received
    (reach : (async i).ReachableWhen (OnTopic CompleteOrUntouched) s) : CalledBack i s := by
  have served := reachable_served reach
  exact ⟨served.given, fun sub there active => (served.listed active sub there).2.2⟩

theorem callback_gets_received_two : ∃ s : Async Nat, CalledBack 0 s ∧ s.calls.length = 1 ∧
    s.loop.message.isSome ∧ s.earlier = 1 := by
  obtain ⟨s, reach, twice⟩ := Machine.reachable_of_check (async 0)
    (OnTopic CompleteOrUntouched) rfl
    [.topic (.construct 0), .topic (.publishRaw ⟨.custom, 8, 0, 1⟩),
      .topic (.receive 0 (.raw 64 0) false), .topic (.finish 0), .registerCallback, .test false,
      .topic (.receive 0 asyncCall false), .topic (.publishRaw ⟨.custom, 8, 8, 2⟩),
      .topic (.wake 0 .ok false), .topic (.finish 0), .callback, .test false,
      .topic (.publishLoaned ⟨.custom, 8, 16, 3⟩), .topic (.receive 0 asyncCall false),
      .topic (.finish 0)]
    (fun s => decide (s.calls.length = 1 ∧ s.loop.message.isSome ∧ s.earlier = 1))
    (by decide +kernel)
  exact ⟨s, callback_gets_received reach, of_decide_eq_true twice⟩

end

end ComIpc.Topic
