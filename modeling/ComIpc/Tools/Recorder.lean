import ComIpc.Bus.Intact
import ComIpc.Bus.Receipts
import ComIpc.Tools.Bag
import ComIpc.Topic.Async

/-! `com_bag record` on a bus that goes on.

The recorder writes a loaned message straight from the pool, at some moment after the receive
has returned. As long as it gets there before the pool has come round to the block, the file
holds what the publishers published, and playing it back publishes the same again.
-/

set_option autoImplicit false

namespace ComIpc.Tools

open Semantics

def recordCall : Topic.ReceiveCall := .loaned 1000

/-- A bus, and a recorder whose subscriber is one of the bus. `written` is a ghost: the
messages in the file, each with the number of its publication. -/
structure Recorder (T K Id : Type) where
  system : Bus.Lapping T K Id
  /-- Received and not yet written. -/
  hand : Option Topic.Delivery
  file : Bytes
  written : List (Nat × Recorded)

inductive RecorderEvent (T K Id : Type) where
  | bus (e : Bus.Event T K Id)
  | write (timestamp : Int64)
  deriving DecidableEq, Repr

def takes (before after : Option Topic.Subscriber) : Option Topic.Delivery := do
  let before ← before
  let after ← after
  (after.deliveries.drop before.deliveries.length).head?

def loanedMessage : Topic.Returned → Option Topic.LoanedMessage
  | .loaned message => some message
  | .raw _ => none

theorem doRecord_concat (topicName : StdString) (msgs : List Recorded) (msg : Recorded) :
    doRecord topicName (msgs ++ [msg]) = doRecord topicName msgs ++ recordFrame msg := by
  rw [doRecord, doRecord, List.foldl_append, List.foldl_cons, List.foldl_nil]

section
variable {T K Id : Type} {s s' : Recorder T K Id}

/-- The subscriber of the recorder, beside what was written and what is in hand. -/
structure Keeping (s : Recorder T K Id) (sub : Topic.Subscriber) : Prop where
  call : ∀ call ∈ sub.phase.call, call = recordCall ∧ s.hand = none
  own : ∀ d ∈ sub.deliveries, d.call = recordCall
  listed : s.written.map Prod.fst ++ s.hand.toList.map Topic.Delivery.publication =
    sub.deliveries.map Topic.Delivery.publication
  hand : ∀ d ∈ s.hand, d ∈ sub.deliveries

theorem Keeping.same {sub : Topic.Subscriber} (keeping : Keeping s sub) (hand : s'.hand = s.hand)
    (written : s'.written = s.written) : Keeping s' sub where
  call := hand ▸ keeping.call
  own := keeping.own
  listed := hand ▸ written ▸ keeping.listed
  hand := hand ▸ keeping.hand

end

section
variable {T K Id : Type} [DecidableEq T] [DecidableEq Id]

/-- What the recorder has in hand after a step of the bus. It receives again when it has
written, and its subscriber lives as long as the loop. -/
def handAfter (t : T) (i : Id) (s : Recorder T K Id) (after : Bus.Lapping T K Id) :
    Bus.Event T K Id → Option (Option Topic.Delivery)
  | .receive u j call _ => do
    if u = t ∧ j = i then guard (s.hand = none ∧ call = recordCall)
    some s.hand
  | .finish u j =>
    if u = t ∧ j = i then
      some (takes ((s.system.bus.topics t).subscribers i) ((after.bus.topics t).subscribers i))
    else some s.hand
  | .destroy u j => do
    guard ¬ (u = t ∧ j = i)
    some s.hand
  | .allocate _ _ _ _ | .copyIn _ | .enqueue _ _ | .loanRaw _ | .writeLoaned _ _
  | .publishLoaned _ _ _ _ _ | .attach _ | .construct _ _ | .wake _ _ _ _ => some s.hand

theorem handAfter_other {t : T} {i : Id} {s : Recorder T K Id} {e : Bus.Event T K Id}
    {after : Bus.Lapping T K Id} {hand : Option Topic.Delivery} (other : e.subscriber ≠ some (t, i))
    (same : handAfter t i s after e = some hand) : hand = s.hand := by
  have apart : ∀ u j, some (u, j) ≠ some (t, i) → ¬ (u = t ∧ j = i) := by
    rintro u j distinct ⟨rfl, rfl⟩
    exact distinct rfl
  cases e with
  | receive u j call shutdown =>
    rw [handAfter, if_neg (apart u j other)] at same
    exact (Option.some.inj same).symm
  | finish u j =>
    rw [handAfter, if_neg (apart u j other)] at same
    exact (Option.some.inj same).symm
  | destroy u j =>
    obtain ⟨_, _, same⟩ := Option.bind_eq_some_iff.mp same
    exact (Option.some.inj same).symm
  | _ => exact (Option.some.inj same).symm

variable [DecidableEq K]

def Recorder.next (t : T) (i : Id) (s : Recorder T K Id) :
    RecorderEvent T K Id → Option (Recorder T K Id)
  | .bus e => do
    let after ← (Bus.lapping T K Id).next s.system e
    let hand ← handAfter t i s after e
    some { s with system := after, hand := hand }
  | .write timestamp => do
    let d ← s.hand
    let message ← loanedMessage d.returned
    let msg : Recorded :=
      ⟨timestamp, s.system.bus.pool.data.load message.data.toNat message.size⟩
    some { s with
      hand := none
      file := s.file ++ recordFrame msg
      written := s.written ++ [(d.publication, msg)] }

/-- The header of the file is written before the subscriber is constructed. -/
def recorder (topicName : StdString) (t : T) (i : Id) :
    Machine (Recorder T K Id) (RecorderEvent T K Id) where
  initial := fun s => s = ⟨⟨.init, [], fun _ => 0, []⟩, none, recordHeader topicName, []⟩
  next := Recorder.next t i

/-- Every write comes in time, and the recorder copies a message that came from `publishRaw`
before the pool has come round to its block. -/
def Timely (t : T) (s : Recorder T K Id) : RecorderEvent T K Id → Prop
  | .bus e => Bus.InTime s.system e ∧ e.Carries
  | .write _ => ∀ d ∈ s.hand, ∃ k ∈ s.system.bus.source t d.publication,
      s.system.Unlapped (s.system.block k)

instance (t : T) (s : Recorder T K Id) (e : RecorderEvent T K Id) : Decidable (Timely t s e) :=
  match e with
  | .bus e => inferInstanceAs (Decidable (Bus.InTime s.system e ∧ e.Carries))
  | .write _ => inferInstanceAs (Decidable (∀ d ∈ s.hand,
      ∃ k ∈ s.system.bus.source t d.publication, s.system.Unlapped (s.system.block k)))

variable {topicName : StdString} {t : T} {i : Id} {s s' : Recorder T K Id}

/-- A message in the file is the payload of the call that its publication came from. -/
def Copies (bus : Bus.State T K Id) (t : T) (publication : Nat) (msg : Recorded) : Prop :=
  ∃ k call, bus.source t publication = some k ∧ bus.calls k = some call ∧ call.topic = t ∧
    msg.data = call.data

theorem Copies.next {bus bus' : Bus.State T K Id} {publication : Nat} {msg : Recorded}
    (copies : Copies bus t publication msg) {e : Bus.Event T K Id}
    (taken : Bus.next bus e = some bus') : Copies bus' t publication msg := by
  obtain ⟨k, call, source, found, topic, same⟩ := copies
  obtain ⟨call', found', later⟩ := (Bus.next_calls taken).keeps k call found
  exact ⟨k, call', Bus.next_source taken source, found', later.topic.trans topic,
    same.trans later.data.symm⟩

structure Recording (topicName : StdString) (t : T) (i : Id) (s : Recorder T K Id) : Prop where
  filled : ∀ k call, s.system.bus.calls k = some call → call.data ≠ []
  file : s.file = doRecord topicName (s.written.map Prod.snd)
  alive : ∀ sub, (s.system.bus.topics t).subscribers i = some sub → Keeping s sub
  absent : (s.system.bus.topics t).subscribers i = none → s.written = [] ∧ s.hand = none
  copies : ∀ w ∈ s.written, Copies s.system.bus t w.1 w.2

theorem recorder_bus {e : Bus.Event T K Id}
    (taken : (recorder topicName t i).next s (.bus e) = some s') :
    ∃ bus, Bus.next s.system.bus e = some bus ∧ s'.system = s.system.note bus e ∧
      handAfter t i s s'.system e = some s'.hand ∧ s'.file = s.file ∧ s'.written = s.written := by
  simp only [recorder, Recorder.next, Option.bind_eq_bind, Option.bind_eq_some_iff,
    Option.some.injEq] at taken
  obtain ⟨after, moved, hand, same, rfl⟩ := taken
  obtain ⟨bus, stepped, rfl⟩ := Bus.lapping_next moved
  exact ⟨bus, stepped, rfl, same, rfl, rfl⟩

theorem recorder_write {timestamp : Int64}
    (taken : (recorder topicName t i).next s (.write timestamp) = some s') :
    ∃ d message msg, s.hand = some d ∧ loanedMessage d.returned = some message ∧
      msg = ⟨timestamp, s.system.bus.pool.data.load message.data.toNat message.size⟩ ∧
      s' = { s with
        hand := none
        file := s.file ++ recordFrame msg
        written := s.written ++ [(d.publication, msg)] } := by
  simp only [recorder, Recorder.next, Option.bind_eq_bind, Option.bind_eq_some_iff,
    Option.some.injEq] at taken
  obtain ⟨d, inHand, message, loaned, rfl⟩ := taken
  exact ⟨d, message, _, inHand, loaned, rfl, rfl⟩

theorem reachable_system (reach : (recorder topicName t i).ReachableWhen (Timely t) s) :
    (Bus.lapping T K Id).ReachableWhen Bus.InTime s.system := by
  induction reach with
  | start init => exact init ▸ .start rfl
  | @step s s' e _ ok taken ih =>
    cases e with
    | bus e =>
      obtain ⟨bus, stepped, same, _⟩ := recorder_bus taken
      have moved : (Bus.lapping T K Id).next s.system e = some s'.system :=
        Option.map_eq_some_iff.mpr ⟨bus, stepped, same.symm⟩
      exact ih.step ok.1 moved
    | write timestamp =>
      obtain ⟨_, _, _, _, _, _, rfl⟩ := recorder_write taken
      exact ih

theorem Recording.own {e : Bus.Event T K Id} (recording : Recording topicName t i s)
    {bus : Bus.State T K Id} (stepped : Bus.next s.system.bus e = some bus)
    (acts : e.subscriber = some (t, i)) (system : s'.system.bus = bus)
    (hand : handAfter t i s s'.system e = some s'.hand) (written : s'.written = s.written) :
    ∃ sub, (bus.topics t).subscribers i = some sub ∧ Keeping s' sub := by
  cases e with
  | allocate | copyIn | enqueue | loanRaw | writeLoaned | publishLoaned | attach => cases acts
  | construct =>
    cases acts
    obtain ⟨shm, _, fresh, after⟩ := Topic.next_construct (Bus.onTopic_here stepped).1
    obtain ⟨nothing, empty⟩ := recording.absent fresh
    have still : s'.hand = none := (Option.some.inj hand).symm.trans empty
    refine ⟨_, by rw [after, Topic.put_self], ?_, ?_, ?_, ?_⟩
    · exact fun _ idle => by cases idle
    · exact fun _ member => absurd member List.not_mem_nil
    · rw [written, nothing, still]
      rfl
    · rw [still]
      exact fun _ member => by cases member
  | destroy =>
    cases acts
    obtain ⟨_, held, _⟩ := Option.bind_eq_some_iff.mp hand
    exact absurd ⟨rfl, rfl⟩ (guard_passed.mp held)
  | receive u j call shutdown =>
    cases acts
    rw [handAfter, if_pos ⟨rfl, rfl⟩] at hand
    obtain ⟨_, held, same⟩ := Option.bind_eq_some_iff.mp hand
    obtain ⟨empty, mine⟩ := guard_passed.mp held
    have still : s'.hand = s.hand := (Option.some.inj same).symm
    obtain ⟨sub, phase, shm, there, _, _, entered, after⟩ :=
      Topic.next_receive (Bus.onTopic_here stepped).1
    have keeping := (recording.alive sub there).same still written
    refine ⟨{ sub with phase := phase }, by rw [after, Topic.put_self], ?_, keeping.own,
      keeping.listed, keeping.hand⟩
    intro other inside
    exact ⟨(entered.call other inside).trans mine, still.trans empty⟩
  | wake u j cause shutdown =>
    cases acts
    have still : s'.hand = s.hand := (Option.some.inj hand).symm
    obtain ⟨sub, call, phase, shm, there, waits, _, entered, after⟩ :=
      Topic.next_wake (Bus.onTopic_here stepped).1
    have keeping := (recording.alive sub there).same still written
    obtain ⟨mine, empty⟩ := keeping.call call (by rw [waits]; rfl)
    refine ⟨{ sub with phase := phase }, by rw [after, Topic.put_self], ?_, keeping.own,
      keeping.listed, keeping.hand⟩
    intro other inside
    exact ⟨(entered.call other inside).trans mine, empty⟩
  | finish u j =>
    cases acts
    obtain ⟨sub, after, there, moved, same⟩ := Bus.finish_eq stepped
    obtain ⟨sub', call, header, publication, final, there', held, done, rfl⟩ :=
      Topic.next_finish moved
    obtain rfl := Option.some.inj (there.symm.trans there')
    have now : (bus.topics t).subscribers i = some final := by
      rw [same]
      simp
    rw [handAfter, if_pos ⟨rfl, rfl⟩, system, there, now] at hand
    have keeping := recording.alive sub there
    obtain ⟨mine, empty⟩ := keeping.call call (by rw [held]; rfl)
    have listed := keeping.listed
    rw [empty, Option.toList_none, List.map_nil, List.append_nil] at listed
    have taken : s'.hand = (final.deliveries.drop sub.deliveries.length).head? :=
      (Option.some.inj hand).symm
    refine ⟨final, now, ?_⟩
    rcases Topic.finish_cases done with rfl | rfl
    · have nothing : s'.hand = none := by
        rw [taken, List.drop_length]
        rfl
      refine ⟨(fun _ idle => by cases idle), keeping.own, ?_, ?_⟩
      · rw [written, nothing, Option.toList_none, List.map_nil, List.append_nil]
        exact listed
      · rw [nothing]
        exact fun _ member => by cases member
    · have got : s'.hand = some ⟨publication, call, call.view header⟩ := by
        rw [taken, List.drop_left]
        rfl
      refine ⟨(fun _ idle => by cases idle), ?_, ?_, ?_⟩
      · intro d member
        rcases List.mem_append.mp member with old | new
        · exact keeping.own d old
        · exact List.mem_singleton.mp new ▸ mine
      · rw [written, got, listed, List.map_append]
        rfl
      · intro d member
        rw [got, Option.mem_some] at member
        exact List.mem_append_right _ (List.mem_singleton.mpr member.symm)

theorem Recording.copy {timestamp : Int64} (recording : Recording topicName t i s)
    (reach : (recorder topicName t i).ReachableWhen (Timely t) s)
    (timely : Timely t s (.write timestamp)) {d : Topic.Delivery} (inHand : s.hand = some d)
    {message : Topic.LoanedMessage} (loaned : loanedMessage d.returned = some message) :
    Copies s.system.bus t d.publication
      ⟨timestamp, s.system.bus.pool.data.load message.data.toNat message.size⟩ := by
  have laps := reachable_system reach
  have running := Bus.lapping_bus laps
  have sound := Bus.reachable_sound running
  obtain ⟨k, source, unlapped⟩ := timely d inHand
  cases there : (s.system.bus.topics t).subscribers i with
  | none =>
    have empty := (recording.absent there).2
    rw [inHand] at empty
    contradiction
  | some sub =>
    have keeping := recording.alive sub there
    have delivered := keeping.hand d inHand
    obtain ⟨header, found, returned⟩ :=
      ((Bus.reachable_consistent running t).follows i sub there).exact d delivered
    rw [returned, keeping.own d delivered] at loaned
    obtain rfl := Option.some.inj loaned
    obtain ⟨call, known, topic, describes⟩ := sound.described found source
    refine ⟨k, call, source, known, topic, ?_⟩
    have stored := (sound.stored k call known).bytes (describes.stage ▸ nofun)
      (Bus.reachable_clean laps k call known unlapped)
    rw [← stored, ← describes.size, ← describes.offset]
    rfl

theorem Recording.step {e : RecorderEvent T K Id}
    (reach : (recorder topicName t i).ReachableWhen (Timely t) s)
    (recording : Recording topicName t i s) (timely : Timely t s e)
    (taken : (recorder topicName t i).next s e = some s') : Recording topicName t i s' := by
  cases e with
  | bus e =>
    obtain ⟨bus, stepped, system, hand, file, written⟩ := recorder_bus taken
    have same : s'.system.bus = bus := by
      rw [system, Bus.note_bus]
    have subscriber : ∀ sub, (bus.topics t).subscribers i = some sub → Keeping s' sub := by
      intro sub now
      by_cases acts : e.subscriber = some (t, i)
      · obtain ⟨sub', now', keeping⟩ := recording.own stepped acts same hand written
        obtain rfl := Option.some.inj (now.symm.trans now')
        exact keeping
      · rw [Bus.next_subscriber stepped acts] at now
        exact (recording.alive sub now).same (handAfter_other acts hand) written
    have absent : (bus.topics t).subscribers i = none → s'.written = [] ∧ s'.hand = none := by
      intro now
      by_cases acts : e.subscriber = some (t, i)
      · obtain ⟨sub', now', _⟩ := recording.own stepped acts same hand written
        rw [now] at now'
        contradiction
      · rw [Bus.next_subscriber stepped acts] at now
        obtain ⟨nothing, empty⟩ := recording.absent now
        exact ⟨written.trans nothing, (handAfter_other acts hand).trans empty⟩
    constructor
    · rw [same]
      exact (Bus.next_calls stepped).filled timely.2 recording.filled
    · rw [file, written]
      exact recording.file
    · exact same ▸ subscriber
    · exact same ▸ absent
    · intro w member
      rw [written] at member
      exact same ▸ (recording.copies w member).next stepped
  | write timestamp =>
    obtain ⟨d, message, msg, inHand, loaned, rfl, rfl⟩ := recorder_write taken
    have copy := recording.copy reach timely inHand loaned
    constructor
    · exact recording.filled
    · rw [List.map_append, List.map_cons, List.map_nil, doRecord_concat, ← recording.file]
    · intro sub there
      have keeping := recording.alive sub there
      refine ⟨fun call inside => ⟨(keeping.call call inside).1, rfl⟩, keeping.own, ?_, nofun⟩
      rw [← keeping.listed, inHand, List.map_append]
      simp
    · intro absent
      have empty := (recording.absent absent).2
      rw [inHand] at empty
      contradiction
    · intro w member
      rcases List.mem_append.mp member with old | new
      · exact recording.copies w old
      · obtain rfl := List.mem_singleton.mp new
        exact copy

end

end ComIpc.Tools
