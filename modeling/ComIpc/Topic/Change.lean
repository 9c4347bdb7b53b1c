import ComIpc.Topic.Machine

/-! What one step of the topic machine can do to the ring and to a subscriber.

Every invariant of the machine is derived from `next_change`, which speaks about
steps that leave no half-written publication behind.
-/

set_option autoImplicit false

namespace ComIpc.Topic

open Semantics SystemManager

/-- The number and the newest header, all a receive looks at, are untouched. -/
structure SameRing (before after : TopicShm) : Prop where
  seq : after.seq = before.seq
  newest : after.newest = before.newest

theorem TopicShm.lockRobust_eq {shm locked : TopicShm} (taken : shm.lockRobust = some locked) :
    locked = { shm with mutex := .held } ∧ shm.mutex.Usable := by
  obtain ⟨⟨mutex, recovered⟩, acquired, rfl⟩ := Option.map_eq_some_iff.mp taken
  obtain ⟨same, usable⟩ := lockRobust_held acquired
  exact ⟨by rw [same], usable⟩

theorem sameRing_mutex (shm : TopicShm) (mutex : RobustMutex) :
    SameRing shm { shm with mutex := mutex } := ⟨rfl, rfl⟩

theorem sameRing_active (shm : TopicShm) (mutex : RobustMutex) (active : Int32) :
    SameRing shm { shm with mutex := mutex, activeSubscribers := active } := ⟨rfl, rfl⟩

section
variable {Id : Type}

inductive Move (s : State Id) (sub : Subscriber) : Subscriber → Prop where
  | failed : Move s sub { sub with phase := .idle }
  | blocked (call : ReceiveCall) : Move s sub { sub with phase := .waiting call }
  | taken (call : ReceiveCall) : sub.lastSeq < s.shm.seq →
      Move s sub { sub with phase := .holding call s.shm.newest s.published.length }
  | delivered {call : ReceiveCall} {header : MessageHeader} {publication : Nat} :
      sub.phase = .holding call header publication →
      Move s sub { sub with
        lastSeq := header.seq.toUInt32
        phase := .idle
        seen := publication
        deliveries := sub.deliveries ++ [⟨publication, call, call.view header⟩] }

inductive Entered (shm : TopicShm) (lastSeq : UInt32) (call : ReceiveCall) (publications : Nat) :
    Phase → Prop where
  | failed : Entered shm lastSeq call publications .idle
  | blocked : Entered shm lastSeq call publications (.waiting call)
  | taken : lastSeq < shm.seq →
      Entered shm lastSeq call publications (.holding call shm.newest publications)

theorem Entered.same {before after : TopicShm} (same : SameRing before after) {lastSeq : UInt32}
    {call : ReceiveCall} {publications : Nat} {phase : Phase}
    (entered : Entered after lastSeq call publications phase) :
    Entered before lastSeq call publications phase := by
  cases entered with
  | failed => exact .failed
  | blocked => exact .blocked
  | taken fresh => exact same.newest ▸ .taken (same.seq ▸ fresh)

theorem Entered.move {s : State Id} {sub : Subscriber} {call : ReceiveCall} {phase : Phase}
    (entered : Entered s.shm sub.lastSeq call s.published.length phase) :
    Move s sub { sub with phase := phase } := by
  cases entered with
  | failed => exact .failed
  | blocked => exact .blocked call
  | taken fresh => exact .taken call fresh

theorem receiveLocked_entered (shm : TopicShm) (lastSeq : UInt32) (call : ReceiveCall)
    (shutdown : Bool) (publications : Nat) :
    (receiveLocked shm lastSeq call shutdown publications).1 = shm.unlock ∧
    Entered shm lastSeq call publications
      (receiveLocked shm lastSeq call shutdown publications).2 := by
  unfold receiveLocked
  split
  · split
    · exact ⟨rfl, .failed⟩
    · exact ⟨rfl, .blocked⟩
  · rename_i passed
    split
    · exact ⟨rfl, .failed⟩
    · rename_i running
      have fresh : lastSeq < shm.seq := by simpa [running] using passed
      exact ⟨rfl, .taken fresh⟩

theorem wakeLocked_entered (shm : TopicShm) (lastSeq : UInt32) (call : ReceiveCall) (ret : Ret)
    (shutdown : Bool) (publications : Nat) :
    (wakeLocked shm lastSeq call ret shutdown publications).1 = shm.unlock ∧
    Entered shm lastSeq call publications
      (wakeLocked shm lastSeq call ret shutdown publications).2 := by
  unfold wakeLocked
  split
  · exact ⟨rfl, .failed⟩
  · exact receiveLocked_entered shm lastSeq call shutdown publications

theorem finish_move {s : State Id} {sub sub' : Subscriber} {call : ReceiveCall}
    {header : MessageHeader} {publication : Nat}
    (held : sub.phase = .holding call header publication)
    (done : finish sub call header publication = some sub') : Move s sub sub' := by
  cases call with
  | loaned timeoutMs =>
    simp only [finish, Option.some.injEq] at done
    exact done ▸ .delivered held
  | raw size timeoutMs =>
    simp only [finish] at done
    split at done
    · split at done
      · exact Option.some.inj done ▸ .delivered held
      · contradiction
    · exact Option.some.inj done ▸ .failed

theorem finish_cases {sub sub' : Subscriber} {call : ReceiveCall} {header : MessageHeader}
    {publication : Nat} (done : finish sub call header publication = some sub') :
    sub' = { sub with phase := .idle } ∨ sub' = { sub with
      lastSeq := header.seq.toUInt32
      phase := .idle
      seen := publication
      deliveries := sub.deliveries ++ [⟨publication, call, call.view header⟩] } := by
  cases call with
  | loaned timeoutMs => exact .inr (Option.some.inj done).symm
  | raw size timeoutMs =>
    simp only [finish] at done
    split at done
    · split at done
      · exact .inr (Option.some.inj done).symm
      · contradiction
    · exact .inl (Option.some.inj done).symm

/-- No publisher dies after its first write and before its last one. -/
def CompleteOrUntouched : State Id → Event Id → Prop
  | _, .publisherDies _ count => count = 0 ∨ enqueueLength ≤ count
  | _, _ => True

def NoDeath : State Id → Event Id → Prop
  | _, .publisherDies _ _ | _, .subscriberDies _ _ => False
  | _, _ => True

instance (s : State Id) (e : Event Id) : Decidable (CompleteOrUntouched s e) :=
  match e with
  | .publisherDies _ count => inferInstanceAs (Decidable (count = 0 ∨ enqueueLength ≤ count))
  | .publishRaw _ | .publishLoaned _ | .attach | .construct _ | .destroy _ | .receive _ _ _
  | .wake _ _ _ | .finish _ | .subscriberDies _ _ => isTrue trivial

instance (s : State Id) (e : Event Id) : Decidable (NoDeath s e) :=
  match e with
  | .publisherDies _ _ | .subscriberDies _ _ => isFalse id
  | .publishRaw _ | .publishLoaned _ | .attach | .construct _ | .destroy _ | .receive _ _ _
  | .wake _ _ _ | .finish _ => isTrue trivial

theorem NoDeath.completeOrUntouched (s : State Id) (e : Event Id) (alive : NoDeath s e) :
    CompleteOrUntouched s e := by
  cases e with
  | publisherDies => exact alive.elim
  | _ => trivial

theorem publishLocked_change {s : State Id} {p : Publication} {shm : TopicShm}
    (done : publishLocked p s.shm = some shm) :
    shm.seq = s.shm.seq + 1 ∧ shm.newest = p.header (s.shm.seq + 1) := by
  obtain ⟨locked, taken, rfl⟩ := Option.map_eq_some_iff.mp done
  obtain ⟨rfl, _⟩ := TopicShm.lockRobust_eq taken
  exact ⟨by simp [enqueue_eq, TopicShm.unlock], newest_enqueue p { s.shm with mutex := .held }⟩

theorem publishDies_change {s : State Id} {p : Publication} {count : Nat} {shm : TopicShm}
    (died : publishDies p count s.shm = some shm) :
    (count = 0 → SameRing s.shm shm) ∧
    (enqueueLength ≤ count →
      shm.seq = s.shm.seq + 1 ∧ shm.newest = p.header (s.shm.seq + 1)) := by
  obtain ⟨locked, taken, rfl⟩ := Option.map_eq_some_iff.mp died
  obtain ⟨rfl, _⟩ := TopicShm.lockRobust_eq taken
  constructor
  · rintro rfl
    exact sameRing_mutex s.shm _
  · intro all
    rw [enqueuePrefix_all all]
    exact ⟨by simp [enqueue_eq, TopicShm.ownerDies],
      newest_enqueue p { s.shm with mutex := .held }⟩

end

section
variable {Id : Type} [DecidableEq Id]

theorem next_construct {s t : State Id} {i : Id} (taken : next s (.construct i) = some t) :
    ∃ shm, SameRing s.shm shm ∧ s.subscribers i = none ∧ t = { s with shm := shm }.put i
      ⟨s.shm.seq, .idle, s.published.length, s.published.length, []⟩ := by
  simp only [next, Option.bind_eq_bind, Option.bind_eq_some_iff, Option.some.injEq,
    guard_passed] at taken
  obtain ⟨shm, locked, _, absent, rfl⟩ := taken
  obtain ⟨rfl, _⟩ := TopicShm.lockRobust_eq locked
  exact ⟨_, sameRing_mutex s.shm _, by simpa using absent, rfl⟩

theorem next_receive {s t : State Id} {i : Id} {call : ReceiveCall} {shutdown : Bool}
    (taken : next s (.receive i call shutdown) = some t) : ∃ sub phase shm,
      s.subscribers i = some sub ∧ sub.phase = .idle ∧ SameRing s.shm shm ∧
      Entered s.shm sub.lastSeq call s.published.length phase ∧
      t = { s with shm := shm }.put i { sub with phase := phase } := by
  simp only [next, Option.bind_eq_bind, Option.bind_eq_some_iff, Option.some.injEq,
    guard_passed] at taken
  obtain ⟨sub, alive, shm, locked, _, idle, rfl⟩ := taken
  obtain ⟨rfl, _⟩ := TopicShm.lockRobust_eq locked
  obtain ⟨released, entered⟩ := receiveLocked_entered { s.shm with mutex := .held } sub.lastSeq
    call shutdown s.published.length
  exact ⟨sub, _, _, alive, idle, released ▸ sameRing_mutex s.shm _,
    entered.same (sameRing_mutex s.shm .held), rfl⟩

theorem next_wake {s t : State Id} {i : Id} {cause : Ret} {shutdown : Bool}
    (taken : next s (.wake i cause shutdown) = some t) : ∃ sub call phase shm,
      s.subscribers i = some sub ∧ sub.phase = .waiting call ∧ SameRing s.shm shm ∧
      Entered s.shm sub.lastSeq call s.published.length phase ∧
      t = { s with shm := shm }.put i { sub with phase := phase } := by
  simp only [next, Option.bind_eq_bind, Option.bind_eq_some_iff] at taken
  obtain ⟨sub, alive, ⟨mutex, ret⟩, acquired, taken⟩ := taken
  split at taken
  · rename_i call waiting
    obtain ⟨released, entered⟩ := wakeLocked_entered { s.shm with mutex := mutex } sub.lastSeq
      call ret shutdown s.published.length
    exact ⟨sub, call, _, _, alive, waiting, released ▸ sameRing_mutex s.shm _,
      entered.same (sameRing_mutex s.shm mutex), (Option.some.inj taken).symm⟩
  · contradiction

theorem next_finish {s t : State Id} {i : Id} (taken : next s (.finish i) = some t) :
    ∃ sub call header publication sub', s.subscribers i = some sub ∧
      sub.phase = .holding call header publication ∧
      finish sub call header publication = some sub' ∧ t = s.put i sub' := by
  simp only [next, Option.bind_eq_bind, Option.bind_eq_some_iff] at taken
  obtain ⟨sub, alive, taken⟩ := taken
  split at taken
  · rename_i call header publication held
    obtain ⟨sub', done, rfl⟩ := Option.map_eq_some_iff.mp taken
    exact ⟨sub, call, header, publication, sub', alive, held, done, rfl⟩
  · contradiction

theorem next_attach {s t : State Id} (taken : next s .attach = some t) :
    ∃ shm, SameRing s.shm shm ∧ t = { s with shm := shm } := by
  simp only [next, Option.bind_eq_bind, Option.bind_eq_some_iff, Option.some.injEq] at taken
  obtain ⟨shm, locked, rfl⟩ := taken
  obtain ⟨rfl, _⟩ := TopicShm.lockRobust_eq locked
  exact ⟨_, sameRing_active s.shm _ _, rfl⟩

theorem next_destroy {s t : State Id} {i : Id} (taken : next s (.destroy i) = some t) :
    ∃ shm, SameRing s.shm shm ∧
      t = { s with shm := shm, subscribers := Function.update s.subscribers i none } := by
  simp only [next, Option.bind_eq_bind, Option.bind_eq_some_iff, Option.some.injEq] at taken
  obtain ⟨sub, _, shm, locked, _, _, rfl⟩ := taken
  obtain ⟨rfl, _⟩ := TopicShm.lockRobust_eq locked
  exact ⟨_, sameRing_active s.shm _ _, rfl⟩

theorem next_subscriberDies {s t : State Id} {i : Id} {holding : Bool}
    (taken : next s (.subscriberDies i holding) = some t) : ∃ shm, SameRing s.shm shm ∧
      t = { s with shm := shm, subscribers := Function.update s.subscribers i none } := by
  simp only [next, Option.bind_eq_bind, Option.bind_eq_some_iff, Option.some.injEq] at taken
  obtain ⟨mutex, _, _, _, rfl⟩ := taken
  exact ⟨_, sameRing_mutex s.shm mutex, rfl⟩

inductive Change (s : State Id) : State Id → Prop where
  | published {shm : TopicShm} (p : Publication) : shm.seq = s.shm.seq + 1 →
      shm.newest = p.header (s.shm.seq + 1) →
      Change s { s with shm := shm, published := s.published ++ [p.header (s.shm.seq + 1)] }
  | quiet {shm : TopicShm} {subscribers : Id → Option Subscriber} : SameRing s.shm shm →
      (∀ i sub, subscribers i = some sub → s.subscribers i = some sub) →
      Change s { s with shm := shm, subscribers := subscribers }
  | joined {shm : TopicShm} (i : Id) : SameRing s.shm shm → s.subscribers i = none →
      Change s ({ s with shm := shm }.put i
        ⟨s.shm.seq, .idle, s.published.length, s.published.length, []⟩)
  | moved {shm : TopicShm} (i : Id) {sub sub' : Subscriber} : SameRing s.shm shm →
      s.subscribers i = some sub → Move s sub sub' →
      Change s ({ s with shm := shm }.put i sub')

theorem removed_alive {subscribers : Id → Option Subscriber} (i : Id) :
    ∀ j sub, Function.update subscribers i none j = some sub → subscribers j = some sub := by
  intro j sub kept
  by_cases same : j = i
  · simp [same] at kept
  · simpa [same] using kept

theorem next_change {s t : State Id} {e : Event Id} (whole : CompleteOrUntouched s e)
    (taken : next s e = some t) : Change s t := by
  cases e with
  | publishRaw p | publishLoaned p =>
    simp only [next, Option.bind_eq_bind, Option.bind_eq_some_iff, Option.some.injEq] at taken
    obtain ⟨shm, done, rfl⟩ := taken
    obtain ⟨seq, newest⟩ := publishLocked_change done
    exact .published p seq newest
  | publisherDies p count =>
    simp only [next, Option.bind_eq_bind, Option.bind_eq_some_iff, Option.some.injEq] at taken
    obtain ⟨shm, died, rfl⟩ := taken
    obtain ⟨untouched, complete⟩ := publishDies_change died
    -- no write or all of them: the deaths in between are excluded
    rcases whole with rfl | all
    · exact .quiet (untouched rfl) fun _ _ kept => kept
    · rw [if_pos all]
      exact .published p (complete all).1 (complete all).2
  | attach =>
    obtain ⟨shm, same, rfl⟩ := next_attach taken
    exact .quiet same fun _ _ kept => kept
  | construct i =>
    obtain ⟨shm, same, absent, rfl⟩ := next_construct taken
    exact .joined i same absent
  | destroy i =>
    obtain ⟨shm, same, rfl⟩ := next_destroy taken
    exact .quiet same (removed_alive i)
  | receive i call shutdown =>
    obtain ⟨sub, phase, shm, alive, _, same, entered, rfl⟩ := next_receive taken
    exact .moved i same alive entered.move
  | wake i cause shutdown =>
    obtain ⟨sub, call, phase, shm, alive, _, same, entered, rfl⟩ := next_wake taken
    exact .moved i same alive entered.move
  | finish i =>
    obtain ⟨sub, call, header, publication, sub', alive, held, done, rfl⟩ := next_finish taken
    exact .moved i (sameRing_mutex s.shm s.shm.mutex) alive (finish_move held done)
  | subscriberDies i holding =>
    obtain ⟨shm, same, rfl⟩ := next_subscriberDies taken
    exact .quiet same (removed_alive i)

def Quiet : Event Id → Prop
  | .publishRaw _ | .publishLoaned _ | .publisherDies _ _ => False
  | _ => True

theorem next_quiet {s t : State Id} {e : Event Id} (quiet : Quiet e)
    (taken : next s e = some t) : t.published = s.published := by
  cases e with
  | publishRaw | publishLoaned | publisherDies => exact quiet.elim
  | construct i =>
    obtain ⟨_, _, _, rfl⟩ := next_construct taken
    rfl
  | receive i call shutdown =>
    obtain ⟨_, _, _, _, _, _, _, rfl⟩ := next_receive taken
    rfl
  | wake i cause shutdown =>
    obtain ⟨_, _, _, _, _, _, _, _, rfl⟩ := next_wake taken
    rfl
  | finish i =>
    obtain ⟨_, _, _, _, _, _, _, _, rfl⟩ := next_finish taken
    rfl
  | attach =>
    obtain ⟨_, _, rfl⟩ := next_attach taken
    rfl
  | destroy i =>
    obtain ⟨_, _, rfl⟩ := next_destroy taken
    rfl
  | subscriberDies i holding =>
    obtain ⟨_, _, rfl⟩ := next_subscriberDies taken
    rfl

theorem next_publish {s t : State Id} {p : Publication}
    (taken : next s (.publishRaw p) = some t ∨ next s (.publishLoaned p) = some t) :
    t.published = s.published ++ [p.header (s.shm.seq + 1)] ∧
      t.subscribers = s.subscribers := by
  simp only [next, Option.bind_eq_bind, Option.bind_eq_some_iff, Option.some.injEq, or_self]
    at taken
  obtain ⟨shm, _, rfl⟩ := taken
  exact ⟨rfl, rfl⟩

end

end ComIpc.Topic
