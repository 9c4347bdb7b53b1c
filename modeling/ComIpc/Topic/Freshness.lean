import ComIpc.Topic.Delivery
import ComIpc.Topic.Recovery
import Mathlib.Algebra.Group.Nat.Defs

/-! When a subscriber finds something new.

A receive compares two residues of 32 bits. They tell whether there is anything new as
long as they are in the order of the numbers they stand for; past a wrap of the topic's
counter that is no longer so, and a subscriber that is behind the wrap finds nothing.
-/

set_option autoImplicit false

namespace ComIpc.Topic

open Semantics SystemManager

theorem residue_lt (n m : Nat) :
    UInt32.ofNat n < UInt32.ofNat m ↔ n % 2 ^ 32 < m % 2 ^ 32 := by
  rw [UInt32.lt_iff_toNat_lt, UInt32.toNat_ofNat', UInt32.toNat_ofNat']

section
variable {Id : Type} [DecidableEq Id]

theorem next_unlocked {s t : State Id} {e : Event Id} (alive : NoDeath s e)
    (free : s.shm.mutex = .unlocked) (taken : next s e = some t) : t.shm.mutex = .unlocked := by
  rcases next_released alive taken with
    ⟨_, same | ⟨_, released⟩⟩ | ⟨i, cause, shutdown, acquired, left⟩
  · exact same.trans free
  · exact released
  · obtain ⟨rfl, _⟩ := RobustMutex.reacquire_ok acquired free
    exact left

theorem reachable_unlocked {s : State Id} (reach : (machine Id).ReachableWhen NoDeath s) :
    s.shm.mutex = .unlocked := by
  refine reach.invariant (fun s => s.shm.mutex = .unlocked) ?_ fun s e t free alive taken =>
    next_unlocked alive free taken
  rintro s rfl
  rfl

/-- What `receiveLoaned` with a timeout of 0 would return to an idle subscriber; there is no
shutdown. -/
def polls (s : State Id) (i : Id) : Option Bool := do
  let after ← next s (.receive i (.loaned 0) false)
  let sub ← after.subscribers i
  match sub.phase with
  | .idle => some false
  | .holding _ _ _ => some true
  | .waiting _ => none

theorem polls_eq {s : State Id} (free : s.shm.mutex = .unlocked) {i : Id} {sub : Subscriber}
    (alive : s.subscribers i = some sub) (idle : sub.phase = .idle) :
    polls s i = some (decide (sub.lastSeq < s.shm.seq)) := by
  have locked : s.shm.lockRobust = some { s.shm with mutex := .held } := by
    rw [TopicShm.lockRobust, free]
    rfl
  have passes : (guard True : Option Unit) = some () := guard_passed.mpr trivial
  simp only [polls, next, Option.bind_eq_bind, alive, locked, idle, passes, Option.bind_some,
    receiveLocked, ReceiveCall.timeoutMs, and_true]
  by_cases fresh : sub.lastSeq < s.shm.seq
  · simp [UInt32.not_le.mpr fresh, fresh]
  · simp [UInt32.not_lt.mp fresh, fresh]

/-- The answer that is promised: false exactly when nothing was published since the
construction or the last successful receive. -/
def ToldRight (s : State Id) (i : Id) (sub : Subscriber) : Prop :=
  polls s i = some (decide (sub.seen ≠ s.published.length))

/-- In every run without deaths the answer is right if and only if there is nothing new or
the two residues are still in the order of the numbers. -/
theorem polls_right_iff {s : State Id} (reach : (machine Id).ReachableWhen NoDeath s) {i : Id}
    {sub : Subscriber} (alive : s.subscribers i = some sub) (idle : sub.phase = .idle) :
    ToldRight s i sub ↔
      sub.seen = s.published.length ∨ sub.seen % 2 ^ 32 < s.published.length % 2 ^ 32 := by
  have consistent := reachable_consistent (reach.weaken NoDeath.completeOrUntouched)
  have follows := consistent.follows i sub alive
  have test : sub.lastSeq < s.shm.seq ↔ sub.seen % 2 ^ 32 < s.published.length % 2 ^ 32 := by
    rw [follows.cursor, consistent.tracks.seq, residue_lt]
  rw [ToldRight, polls_eq (reachable_unlocked reach) alive idle, Option.some.injEq,
    decide_eq_decide, test]
  constructor
  · intro same
    by_cases caughtUp : sub.seen = s.published.length
    · exact .inl caughtUp
    · exact .inr (same.mpr caughtUp)
  · rintro (caughtUp | ordered)
    · simp [caughtUp]
    · refine iff_of_true ordered fun caughtUp => ?_
      rw [caughtUp] at ordered
      exact Nat.lt_irrefl _ ordered

theorem publish_step {s : State Id} (reach : (machine Id).ReachableWhen NoDeath s)
    (p : Publication) : ∃ t, (machine Id).ReachableWhen NoDeath t ∧
      t.published.length = s.published.length + 1 ∧ t.subscribers = s.subscribers := by
  have locked : s.shm.lockRobust = some { s.shm with mutex := .held } := by
    rw [TopicShm.lockRobust, reachable_unlocked reach]
    rfl
  have taken : next s (.publishRaw p) = some
      { s with
        shm := (enqueue p { s.shm with mutex := .held }).unlock
        published := s.published ++ [p.header (s.shm.seq + 1)] } := by
    simp [next, publishLocked, locked]
  have alive : NoDeath s (.publishRaw p) := trivial
  exact ⟨_, reach.step alive taken, by simp, rfl⟩

theorem backlog_of_any_length (n : Nat) : ∃ s : State Nat,
    (machine Nat).ReachableWhen NoDeath s ∧ s.published.length = n ∧
      s.subscribers 0 = some ⟨0, .idle, 0, 0, []⟩ := by
  induction n with
  | zero =>
    obtain ⟨s, reach, joined⟩ := Machine.reachable_of_check (machine Nat) NoDeath rfl
      [.construct 0] (fun s => decide (s.published.length = 0 ∧
        s.subscribers 0 = some ⟨0, .idle, 0, 0, []⟩)) (by decide)
    exact ⟨s, reach, of_decide_eq_true joined⟩
  | succ n ih =>
    obtain ⟨s, reach, length, alive⟩ := ih
    obtain ⟨t, reach, longer, same⟩ := publish_step reach ⟨.custom, 8, 0, 1⟩
    exact ⟨t, reach, by rw [longer, length], by rw [same, alive]⟩

end

theorem polls_right_new : ∃ (s : State Nat) (sub : Subscriber),
    sub.seen = 0 ∧ s.published.length = 1 ∧ ToldRight s 0 sub := by
  obtain ⟨s, reach, length, alive⟩ := backlog_of_any_length 1
  exact ⟨s, _, rfl, length,
    (polls_right_iff reach alive rfl).mpr (.inr (by rw [length]; decide))⟩

/-- After 2^32 messages the counter stands where the subscriber joined. -/
theorem wrap_hides_messages :
    ¬ ∀ s : State Nat, (machine Nat).ReachableWhen NoDeath s → ∀ i sub,
      s.subscribers i = some sub → sub.phase = .idle → ToldRight s i sub := by
  intro claim
  obtain ⟨s, reach, length, alive⟩ := backlog_of_any_length (2 ^ 32)
  have consistent := reachable_consistent (reach.weaken NoDeath.completeOrUntouched)
  have told := claim s reach 0 _ alive rfl
  -- both counters are 0
  rw [ToldRight, polls_eq (reachable_unlocked reach) alive rfl, consistent.tracks.seq, length]
    at told
  exact absurd told (by decide)

end ComIpc.Topic
