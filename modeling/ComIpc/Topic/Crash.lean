import ComIpc.Topic.Delivery
import Mathlib.Tactic.IntervalCases

/-! Publishers that die inside their critical section.

`lockRobust` repairs the mutex and not the ring. A death between `++seq` and
`write_index++` leaves a counter that promises a publication the ring does not
hold: the next receive passes its loop test and reads the previous slot again. The
next publish that is completed mends it.
-/

set_option autoImplicit false

namespace ComIpc.Topic

open Semantics

section
variable {Id : Type}

/-- Every successful receive returned a completed publication, and none twice. -/
def CompleteAndOnce (s : State Id) : Prop :=
  ∀ i sub, s.subscribers i = some sub →
    (∀ d ∈ sub.deliveries, ∃ header, nth s.published d.publication = some header ∧
      d.returned = d.call.view header) ∧
    (sub.deliveries.map Delivery.publication).Nodup

/-- The counter is ahead of the newest header: whoever raised it died before the header was
complete, and nobody has published since. -/
def TopicShm.HalfWritten (shm : TopicShm) : Prop := shm.newest.seq.toUInt32 ≠ shm.seq

/-- Nobody enters a receive or wakes up in one while the ring is half-written. -/
def ReadsWhole (s : State Id) : Event Id → Prop
  | .receive _ _ _ | .wake _ _ _ => ¬ s.shm.HalfWritten
  | _ => True

instance (shm : TopicShm) : Decidable shm.HalfWritten :=
  inferInstanceAs (Decidable (shm.newest.seq.toUInt32 ≠ shm.seq))

instance (s : State Id) (e : Event Id) : Decidable (ReadsWhole s e) :=
  match e with
  | .receive _ _ _ | .wake _ _ _ => inferInstanceAs (Decidable (¬ s.shm.HalfWritten))
  | .publishRaw _ | .publishLoaned _ | .publisherDies _ _ | .attach | .construct _ | .destroy _
  | .finish _ | .subscriberDies _ _ => isTrue trivial

/-! ### The ring under any death -/

theorem slotOf_pred (index : UInt32) : TopicShm.slotOf (index - 1) ≠ TopicShm.slotOf index := by
  intro same
  have residues := congrArg Fin.val same
  have bound := index.toNat_lt
  simp only [TopicShm.slotOf, bufferSize, UInt32.toNat_sub, UInt32.toNat_one] at residues
  omega

/-- A publisher that dies before its last write has only touched a slot that nobody reads. -/
theorem newest_enqueuePrefix {p : Publication} {count : Nat} (cut : count < enqueueLength)
    (shm : TopicShm) : (enqueuePrefix p count shm).newest = shm.newest := by
  have apart := slotOf_pred shm.writeIndex
  interval_cases count <;>
    simp [enqueuePrefix, enqueueWrites, TopicShm.setHeader, TopicShm.newest, apart]

theorem next_dies {s t : State Id} [DecidableEq Id] {p : Publication} {count : Nat}
    (taken : next s (.publisherDies p count) = some t) (cut : count < enqueueLength) :
    ∃ shm, shm.newest = s.shm.newest ∧ t = { s with shm := shm } := by
  simp only [next, Option.bind_eq_bind, Option.bind_eq_some_iff, Option.some.injEq,
    if_neg (Nat.not_le_of_lt cut)] at taken
  obtain ⟨shm, died, rfl⟩ := taken
  obtain ⟨locked, taken, rfl⟩ := Option.map_eq_some_iff.mp died
  obtain ⟨rfl, _⟩ := TopicShm.lockRobust_eq taken
  refine ⟨_, ?_, rfl⟩
  exact newest_enqueuePrefix cut { s.shm with mutex := .held }

/-- What a step leaves of the ring and of the subscribers, deaths half-way included. -/
theorem next_change_or_dies {s t : State Id} [DecidableEq Id] {e : Event Id}
    (taken : next s e = some t) :
    Change s t ∨ ∃ shm, shm.newest = s.shm.newest ∧ t = { s with shm := shm } := by
  by_cases whole : CompleteOrUntouched s e
  · exact .inl (next_change whole taken)
  · cases e with
    | publisherDies p count =>
      exact .inr (next_dies taken (Nat.lt_of_not_le fun all => whole (.inr all)))
    | _ => exact absurd trivial whole

variable [DecidableEq Id]

/-- Whoever dies, the ring holds the last publication that was completed. -/
theorem reachable_newest {s : State Id} (reach : (machine Id).Reachable s) :
    s.shm.newest = s.published.getLast?.getD .zero := by
  refine reach.invariant (fun s => s.shm.newest = s.published.getLast?.getD .zero) ?_
    fun s e t holds _ taken => ?_
  · rintro s rfl
    rfl
  · rcases next_change_or_dies taken with change | ⟨shm, newest, rfl⟩
    · cases change with
      | published p _ newest => simp [newest]
      | quiet same | joined _ same | moved _ same => exact same.newest.trans holds
    · exact newest.trans holds

/-- As long as nobody dies half-way the counter is the number of the newest header. -/
theorem not_halfWritten {s : State Id}
    (reach : (machine Id).ReachableWhen CompleteOrUntouched s) : ¬ s.shm.HalfWritten := by
  have tracks := (reachable_consistent reach).tracks
  have newest := reachable_newest (reach.weaken fun _ _ _ => trivial)
  rw [TopicShm.HalfWritten, not_not, newest, tracks.seq]
  cases last : s.published.getLast? with
  | none =>
    rw [List.getLast?_eq_none_iff.mp last]
    rfl
  | some header => exact tracks.numbered_nth ((nth_length _).trans last)

/-! ### What a subscriber has been handed -/

/-- A subscriber whose cursor is not at the newest header has not been handed that header. -/
structure Handed (shm : TopicShm) (published : List MessageHeader) (sub : Subscriber) : Prop where
  exact : ∀ d ∈ sub.deliveries, ∃ header, nth published d.publication = some header ∧
    d.returned = d.call.view header
  ordered : (sub.deliveries.map Delivery.publication).Pairwise (· < ·)
  behind : sub.lastSeq ≠ shm.newest.seq.toUInt32 →
    ∀ d ∈ sub.deliveries, d.publication < published.length
  holding : ∀ call header publication, sub.phase = .holding call header publication →
    nth published publication = some header ∧ ∀ d ∈ sub.deliveries, d.publication < publication

theorem Handed.le {shm : TopicShm} {published : List MessageHeader} {sub : Subscriber}
    (handed : Handed shm published sub) {d : Delivery} (member : d ∈ sub.deliveries) :
    d.publication ≤ published.length := by
  obtain ⟨_, found, _⟩ := handed.exact d member
  exact (nth_bound found).2

theorem Handed.same {before after : TopicShm} {published : List MessageHeader} {sub : Subscriber}
    (handed : Handed before published sub) (newest : after.newest = before.newest) :
    Handed after published sub :=
  { handed with behind := newest ▸ handed.behind }

theorem Handed.publish {before after : TopicShm} {published : List MessageHeader}
    {sub : Subscriber} (handed : Handed before published sub) (header : MessageHeader) :
    Handed after (published ++ [header]) sub where
  exact d member := by
    obtain ⟨old, found, returned⟩ := handed.exact d member
    exact ⟨old, nth_append _ found, returned⟩
  ordered := handed.ordered
  behind _ d member := by
    have old := handed.le member
    simp only [List.length_append, List.length_singleton]
    omega
  holding call old publication held := by
    obtain ⟨found, later⟩ := handed.holding call old publication held
    exact ⟨nth_append _ found, later⟩

theorem Handed.joins (shm : TopicShm) (published : List MessageHeader) (lastSeq : UInt32)
    (joined seen : Nat) : Handed shm published ⟨lastSeq, .idle, joined, seen, []⟩ := by
  constructor <;> simp

theorem Handed.enters {shm : TopicShm} {published : List MessageHeader} {sub : Subscriber}
    {call : ReceiveCall} {phase : Phase} (handed : Handed shm published sub)
    (ring : shm.newest = published.getLast?.getD .zero) (whole : ¬ shm.HalfWritten)
    (entered : Entered shm sub.lastSeq call published.length phase) :
    Handed shm published { sub with phase := phase } := by
  cases entered with
  | failed | blocked => exact { handed with holding := by simp }
  | taken passed =>
    -- the counter is the number of the newest header, so the cursor is not at that header
    rw [← Decidable.not_not.mp whole] at passed
    refine { handed with holding := ?_ }
    intro call header publication held
    cases held
    refine ⟨?_, handed.behind (UInt32.ne_of_lt passed)⟩
    rw [nth_length]
    cases last : published.getLast? with
    | none =>
      rw [ring, last] at passed
      exact absurd passed UInt32.not_lt_zero
    | some header => rw [ring, last, Option.getD_some]

theorem Handed.finishes {shm : TopicShm} {published : List MessageHeader} {sub sub' : Subscriber}
    {call : ReceiveCall} {header : MessageHeader} {publication : Nat}
    (handed : Handed shm published sub) (ring : shm.newest = published.getLast?.getD .zero)
    (held : sub.phase = .holding call header publication)
    (done : finish sub call header publication = some sub') : Handed shm published sub' := by
  obtain ⟨found, later⟩ := handed.holding call header publication held
  have bound := (nth_bound found).2
  rcases finish_cases done with rfl | rfl
  · exact { handed with holding := by simp }
  · obtain ⟨exact_, ordered⟩ := delivered_append handed.exact handed.ordered
      ⟨publication, call, call.view header⟩ found rfl later
    refine ⟨exact_, ordered, fun elsewhere d member => ?_, by simp⟩
    rcases List.mem_append.mp member with old | new
    · exact Nat.lt_of_lt_of_le (later d old) bound
    · cases List.mem_singleton.mp new
      refine Nat.lt_of_le_of_ne bound fun (all : publication = _) => elsewhere ?_
      rw [all, nth_length] at found
      rw [ring, found, Option.getD_some]

def EachHanded (s : State Id) : Prop :=
  ∀ i sub, s.subscribers i = some sub → Handed s.shm s.published sub

theorem EachHanded.put {s : State Id} {shm : TopicShm} {i : Id} {sub : Subscriber}
    (each : EachHanded s) (newest : shm.newest = s.shm.newest)
    (handed : Handed s.shm s.published sub) : EachHanded ({ s with shm := shm }.put i sub) := by
  intro j other found
  by_cases self : j = i
  · subst self
    rw [put_self, Option.some.injEq] at found
    exact found ▸ handed.same newest
  · simp only [State.put, Function.update_of_ne self] at found
    exact (each j other found).same newest

theorem EachHanded.step {s t : State Id} {e : Event Id} (each : EachHanded s)
    (ring : s.shm.newest = s.published.getLast?.getD .zero) (whole : ReadsWhole s e)
    (taken : next s e = some t) : EachHanded t := by
  cases e with
  | publishRaw p | publishLoaned p =>
    simp only [next, Option.bind_eq_bind, Option.bind_eq_some_iff, Option.some.injEq] at taken
    obtain ⟨shm, _, rfl⟩ := taken
    exact fun i sub alive => (each i sub alive).publish _
  | publisherDies p count =>
    rcases Nat.lt_or_ge count enqueueLength with cut | all
    · obtain ⟨shm, newest, rfl⟩ := next_dies taken cut
      exact fun i sub alive => (each i sub alive).same newest
    · simp only [next, Option.bind_eq_bind, Option.bind_eq_some_iff, Option.some.injEq,
        if_pos all] at taken
      obtain ⟨shm, _, rfl⟩ := taken
      exact fun i sub alive => (each i sub alive).publish _
  | attach =>
    obtain ⟨shm, same, rfl⟩ := next_attach taken
    exact fun i sub alive => (each i sub alive).same same.newest
  | construct i =>
    obtain ⟨shm, same, _, rfl⟩ := next_construct taken
    exact each.put same.newest (.joins _ _ _ _ _)
  | destroy i =>
    obtain ⟨shm, same, rfl⟩ := next_destroy taken
    exact fun j sub alive => (each j sub (removed_alive i j sub alive)).same same.newest
  | receive i call shutdown =>
    obtain ⟨sub, phase, shm, alive, _, same, entered, rfl⟩ := next_receive taken
    exact each.put same.newest ((each i sub alive).enters ring whole entered)
  | wake i cause shutdown =>
    obtain ⟨sub, call, phase, shm, alive, _, same, entered, rfl⟩ := next_wake taken
    exact each.put same.newest ((each i sub alive).enters ring whole entered)
  | finish i =>
    obtain ⟨sub, call, header, publication, sub', alive, held, done, rfl⟩ := next_finish taken
    exact each.put rfl ((each i sub alive).finishes ring held done)
  | subscriberDies i holding =>
    obtain ⟨shm, same, rfl⟩ := next_subscriberDies taken
    exact fun j sub alive => (each j sub (removed_alive i j sub alive)).same same.newest

/-- Deaths do no harm as long as nobody receives from a half-written ring. -/
theorem complete_and_once {s : State Id} (reach : (machine Id).ReachableWhen ReadsWhole s) :
    CompleteAndOnce s := by
  have each : EachHanded s := by
    refine reach.invariant_of EachHanded ?_ fun s e t reach each whole taken =>
      each.step (reachable_newest (reach.weaken fun _ _ _ => trivial)) whole taken
    rintro s rfl
    exact fun i sub alive => nomatch alive
  intro i sub alive
  have handed := each i sub alive
  exact ⟨handed.exact, handed.ordered.imp Nat.ne_of_lt⟩

end

/-- The second publisher dies half-way, and the third one publishes before anybody looks. -/
theorem complete_and_once_after_deaths :
    ∃ s : State Nat, (s.subscribers 0).map (fun sub => sub.deliveries.map Delivery.publication)
      = some [1, 2] ∧ s.shm.mutex = .ownerDied ∧ s.shm.HalfWritten ∧ CompleteAndOnce s := by
  obtain ⟨s, reach, once⟩ := Machine.reachable_of_check (machine Nat) ReadsWhole rfl
    [.construct 0, .publisherDies ⟨.custom, 8, 0, 1⟩ 7, .receive 0 (.loaned 0) false, .finish 0,
      .publisherDies ⟨.custom, 8, 8, 2⟩ 3, .publishRaw ⟨.custom, 8, 16, 3⟩,
      .receive 0 (.raw 64 0) false, .finish 0, .publisherDies ⟨.custom, 8, 24, 4⟩ 1]
    (fun s => decide ((s.subscribers 0).map (fun sub => sub.deliveries.map Delivery.publication)
      = some [1, 2] ∧ s.shm.mutex = .ownerDied ∧ s.shm.HalfWritten)) (by decide)
  obtain ⟨numbers, died, cut⟩ := of_decide_eq_true once
  exact ⟨s, numbers, died, cut, complete_and_once reach⟩

/-- One publication is received, the next publisher dies right after `++seq`, and the same
publication is received again. -/
theorem half_written_repeats :
    ¬ ∀ s : State Nat, (machine Nat).Reachable s → CompleteAndOnce s := by
  intro claim
  obtain ⟨s, reach, again⟩ := Machine.reachable_of_check (machine Nat) (fun _ _ => True) rfl
    [.construct 0, .publishRaw ⟨.custom, 8, 0, 1⟩, .receive 0 (.raw 64 0) false, .finish 0,
      .publisherDies ⟨.custom, 8, 8, 2⟩ 1, .receive 0 (.raw 64 0) false, .finish 0]
    (fun s => decide ((s.subscribers 0).map (fun sub => sub.deliveries.map Delivery.publication)
      = some [1, 1])) (by decide)
  obtain ⟨sub, alive, numbers⟩ := Option.map_eq_some_iff.mp (of_decide_eq_true again)
  have once := (claim s reach 0 sub alive).2
  rw [numbers] at once
  exact absurd once (by decide)

end ComIpc.Topic
