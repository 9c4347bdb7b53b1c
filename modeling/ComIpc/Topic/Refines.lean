import ComIpc.Semantics.LatestValue
import ComIpc.Topic.Delivery
import Mathlib.Data.Option.Defs

/-! A topic is a log whose readers skip to its last entry.

The ring, the two 32-bit counters and the mutex do not show. An observer sees the
publications, the subscribers that come and go, and the header with which a receive
returns true; what he sees of a run he could have seen of the unbounded log.
-/

set_option autoImplicit false

namespace ComIpc.Topic

open Semantics

section
variable {Id : Type}

/-- The publication whose header a receive has copied and not yet returned. -/
def Subscriber.inHand (sub : Subscriber) : Option Nat :=
  match sub.phase with
  | .holding _ _ publication => some publication
  | .idle | .waiting _ => none

/-- The header with which a receive of this subscriber returned true. -/
def headerReturned (before after : Subscriber) : Option MessageHeader :=
  match before.phase with
  | .holding _ header _ => if after.deliveries = before.deliveries then none else some header
  | .idle | .waiting _ => none

def observe (s : State Id) (e : Event Id) (t : State Id) :
    List (LatestValue.Seen Id MessageHeader) :=
  match e with
  | .publishRaw p | .publishLoaned p => [.appended (p.header (s.shm.seq + 1))]
  | .publisherDies p count =>
    if enqueueLength ≤ count then [.appended (p.header (s.shm.seq + 1))] else []
  | .construct i => [.joined i]
  | .destroy i | .subscriberDies i _ => [.left i]
  | .finish i => ((do headerReturned (← s.subscribers i) (← t.subscribers i)).map
      (LatestValue.Seen.delivered i)).toList
  | .attach | .receive _ _ _ | .wake _ _ _ => []

structure Stands (sub : Subscriber) (reader : Reader) : Prop where
  passed : reader.passed = sub.seen
  taken : reader.taken = sub.inHand

/-- The log that a topic stands for; ring and counters are in order. -/
structure Represents (s : State Id) (abstract : LatestValue Id MessageHeader) : Prop where
  consistent : Consistent s
  log : abstract.log = s.published
  readers : ∀ i, Option.Rel Stands (s.subscribers i) (abstract.readers i)

end

section
variable {Id : Type} {s t : State Id} {abstract : LatestValue Id MessageHeader}

theorem Represents.published (represents : Represents s abstract) {p : Publication}
    (consistent : Consistent t) (log : t.published = s.published ++ [p.header (s.shm.seq + 1)])
    (same : t.subscribers = s.subscribers) :
    Represents t { abstract with log := abstract.log ++ [p.header (s.shm.seq + 1)] } where
  consistent := consistent
  log := by rw [represents.log, log]
  readers := by
    rw [same]
    exact represents.readers

theorem Represents.reader (represents : Represents s abstract) {i : Id} {sub : Subscriber}
    (alive : s.subscribers i = some sub) :
    ∃ reader, abstract.readers i = some reader ∧ Stands sub reader := by
  have related := represents.readers i
  rw [alive] at related
  cases there : abstract.readers i with
  | none =>
    rw [there] at related
    cases related
  | some reader =>
    rw [there] at related
    cases related with
    | some stands => exact ⟨reader, rfl, stands⟩

variable [DecidableEq Id]

theorem Represents.moved (represents : Represents s abstract) (consistent : Consistent t)
    (published : t.published = s.published) {i : Id} {sub : Option Subscriber}
    {reader : Option Reader} (subscribers : t.subscribers = Function.update s.subscribers i sub)
    (stands : Option.Rel Stands sub reader) : Represents t (abstract.put i reader) where
  consistent := consistent
  log := represents.log.trans published.symm
  readers := by
    intro j
    rw [subscribers]
    by_cases same : j = i
    · subst same
      rw [Function.update_self, LatestValue.put_self]
      exact stands
    · rw [Function.update_of_ne same, LatestValue.put_of_ne _ same]
      exact represents.readers j

theorem Represents.unmoved (represents : Represents s abstract) (consistent : Consistent t)
    (published : t.published = s.published) {i : Id} {sub : Option Subscriber}
    (subscribers : t.subscribers = Function.update s.subscribers i sub)
    (stands : Option.Rel Stands sub (abstract.readers i)) : Represents t abstract := by
  have moved := represents.moved consistent published subscribers stands
  rwa [LatestValue.put, Function.update_eq_self] at moved

theorem Represents.entered (represents : Represents s abstract) (consistent : Consistent t)
    {i : Id} {sub : Subscriber} {call : ReceiveCall} {phase : Phase}
    (alive : s.subscribers i = some sub) (empty : sub.inHand = none)
    (entered : Entered s.shm sub.lastSeq call s.published.length phase)
    (published : t.published = s.published)
    (subscribers : t.subscribers =
      Function.update s.subscribers i (some { sub with phase := phase })) :
    ∃ b, Represents t b ∧ (b = abstract ∨
      (LatestValue.machine Id MessageHeader).next abstract (.take i) = some b) := by
  obtain ⟨reader, there, stands⟩ := represents.reader alive
  cases entered with
  | failed | blocked =>
    refine ⟨abstract, represents.unmoved consistent published subscribers ?_, .inl rfl⟩
    rw [there]
    exact .some ⟨stands.passed, stands.taken.trans empty⟩
  | taken fresh =>
    have follows := represents.consistent.follows i sub alive
    have later := (later_of_passed represents.consistent.tracks follows fresh).1
    have ahead : reader.passed < abstract.log.length := by
      rw [stands.passed, represents.log]
      exact later
    have stays : Stands { sub with phase := .holding call s.shm.newest s.published.length }
        ⟨reader.passed, some abstract.log.length, fun _ same => Option.some.inj same ▸ ahead⟩ :=
      ⟨stands.passed, congrArg some (congrArg List.length represents.log)⟩
    refine ⟨_, represents.moved consistent published subscribers (.some stays), .inr ?_⟩
    simp [LatestValue.machine, LatestValue.next, there, ahead]

/-- Each step of a topic is a step of the log, or nothing that is seen. -/
theorem simulation : Simulation (machine Id) CompleteOrUntouched observe
    (LatestValue.machine Id MessageHeader) (fun _ _ => True) LatestValue.shows Represents where
  start := by
    rintro s rfl
    refine ⟨_, rfl, ⟨.init, by simp⟩, rfl, ?_⟩
    exact fun i => .none
  step := by
    intro s e t abstract represents whole taken
    have consistent := represents.consistent.change (next_change whole taken)
    cases e with
    | publishRaw p =>
      obtain ⟨log, same⟩ := next_publish (.inl taken)
      exact ⟨_, represents.published consistent log same, .inr ⟨.append _, trivial, rfl, rfl⟩⟩
    | publishLoaned p =>
      obtain ⟨log, same⟩ := next_publish (.inr taken)
      exact ⟨_, represents.published consistent log same, .inr ⟨.append _, trivial, rfl, rfl⟩⟩
    | publisherDies p count =>
      have died := taken
      simp only [machine, next, Option.bind_eq_bind, Option.bind_eq_some_iff,
        Option.some.injEq] at died
      obtain ⟨shm, _, rfl⟩ := died
      by_cases all : enqueueLength ≤ count
      · refine ⟨_, represents.published consistent (if_pos all) rfl,
          .inr ⟨.append _, trivial, rfl, ?_⟩⟩
        exact (if_pos all).symm
      · refine ⟨abstract, ⟨consistent, ?_, represents.readers⟩, .inl ⟨rfl, if_neg all⟩⟩
        exact represents.log.trans (if_neg all).symm
    | attach =>
      obtain ⟨shm, _, rfl⟩ := next_attach taken
      exact ⟨abstract, ⟨consistent, represents.log, represents.readers⟩, .inl ⟨rfl, rfl⟩⟩
    | construct i =>
      obtain ⟨shm, _, _, rfl⟩ := next_construct taken
      have begins : Stands ⟨s.shm.seq, .idle, s.published.length, s.published.length, []⟩
          (.at abstract.log.length) := ⟨congrArg List.length represents.log, rfl⟩
      exact ⟨_, represents.moved consistent rfl rfl (.some begins),
        .inr ⟨.join i, trivial, rfl, rfl⟩⟩
    | destroy i =>
      obtain ⟨shm, _, rfl⟩ := next_destroy taken
      exact ⟨_, represents.moved consistent rfl rfl .none, .inr ⟨.leave i, trivial, rfl, rfl⟩⟩
    | subscriberDies i holding =>
      obtain ⟨shm, _, rfl⟩ := next_subscriberDies taken
      exact ⟨_, represents.moved consistent rfl rfl .none, .inr ⟨.leave i, trivial, rfl, rfl⟩⟩
    | receive i call shutdown =>
      obtain ⟨sub, phase, shm, alive, idle, _, entered, rfl⟩ := next_receive taken
      obtain ⟨b, after, same | moved⟩ := represents.entered consistent alive
        (by simp [Subscriber.inHand, idle]) entered rfl rfl
      · exact ⟨b, after, .inl ⟨same, rfl⟩⟩
      · exact ⟨b, after, .inr ⟨.take i, trivial, moved, rfl⟩⟩
    | wake i cause shutdown =>
      obtain ⟨sub, call, phase, shm, alive, waits, _, entered, rfl⟩ := next_wake taken
      obtain ⟨b, after, same | moved⟩ := represents.entered consistent alive
        (by simp [Subscriber.inHand, waits]) entered rfl rfl
      · exact ⟨b, after, .inl ⟨same, rfl⟩⟩
      · exact ⟨b, after, .inr ⟨.take i, trivial, moved, rfl⟩⟩
    | finish i =>
      obtain ⟨sub, call, header, publication, sub', alive, held, done, rfl⟩ := next_finish taken
      obtain ⟨reader, there, stands⟩ := represents.reader alive
      have inHand : reader.taken = some publication := by
        rw [stands.taken, Subscriber.inHand, held]
      have found := (represents.consistent.follows i sub alive).holding call header publication held
      rcases finish_cases done with rfl | rfl
      · have gives : Stands { sub with phase := .idle } (.at reader.passed) := ⟨stands.passed, rfl⟩
        refine ⟨_, represents.moved consistent rfl rfl (.some gives),
          .inr ⟨.drop i, trivial, ?_, ?_⟩⟩
        · simp [LatestValue.machine, LatestValue.next, there]
        · simp [LatestValue.shows, observe, alive, headerReturned, held]
      · refine ⟨_, represents.moved consistent rfl rfl (.some (b := .at publication) ⟨rfl, rfl⟩),
          .inr ⟨.deliver i, trivial, ?_, ?_⟩⟩
        · simp [LatestValue.machine, LatestValue.next, there, inHand]
        · have entry : s.published[publication - 1]? = some header := by
            have counted := (nth_bound found.2).1
            have nth := found.2
            rwa [ComIpc.Topic.nth, if_neg (Nat.ne_of_gt counted)] at nth
          simp [LatestValue.shows, observe, alive, headerReturned, held, LatestValue.inHand,
            there, inHand, represents.log, entry]

/-- Whatever is seen of a topic is seen of the log: its receives return, in order and at
most once each, headers that were published after their subscriber was constructed. -/
theorem topic_is_log {seen : List (LatestValue.Seen Id MessageHeader)}
    (trace : (machine Id).Traces CompleteOrUntouched observe s seen) :
    (∃ abstract, abstract.log = s.published ∧ (LatestValue.machine Id MessageHeader).Traces
      (fun _ _ => True) LatestValue.shows abstract seen) ∧
    ∀ i, (LatestValue.received i seen).Sublist (LatestValue.offered i seen) := by
  obtain ⟨abstract, represents, shown⟩ := simulation.traces trace
  exact ⟨⟨abstract, represents.log, shown⟩, LatestValue.received_sublist shown⟩

end

theorem topic_is_log_skips :
    (LatestValue.received 0 [.joined 0, .appended (Publication.header ⟨.custom, 8, 0, 1⟩ 1),
        .appended (Publication.header ⟨.pose, 8, 8, 2⟩ 2), .joined 1,
        .delivered 0 (Publication.header ⟨.pose, 8, 8, 2⟩ 2)]).Sublist
      [Publication.header ⟨.custom, 8, 0, 1⟩ 1, Publication.header ⟨.pose, 8, 8, 2⟩ 2] := by
  have ends : ((machine Nat).watchedRun CompleteOrUntouched observe ⟨.init, fun _ => none, []⟩
      [.construct 0, .publishRaw ⟨.custom, 8, 0, 1⟩, .publisherDies ⟨.pose, 8, 8, 2⟩ 7,
        .receive 0 (.loaned 0) false, .construct 1, .receive 1 (.raw 64 (-1)) false,
        .finish 0]).map Prod.snd =
      some [.joined 0, .appended (Publication.header ⟨.custom, 8, 0, 1⟩ 1),
        .appended (Publication.header ⟨.pose, 8, 8, 2⟩ 2), .joined 1,
        .delivered 0 (Publication.header ⟨.pose, 8, 8, 2⟩ 2)] := by
    decide
  obtain ⟨⟨s, seen⟩, path, rfl⟩ := Option.map_eq_some_iff.mp ends
  exact (topic_is_log (Machine.Traces.watchedRun (.start rfl) _ path)).2 0

end ComIpc.Topic
