import ComIpc.Semantics.Monitor
import ComIpc.Topic.Backlog
import ComIpc.Semantics.Until

/-! The condition variable of a topic.

The counter that the receive loops test is raised in one place, the first write of a
publish, and the broadcast is the last thing before the unlock. So no wake-up is lost,
unless a publisher dies between the two: the lock is repaired behind it and nobody makes up
for the broadcast.
-/

set_option autoImplicit false

namespace ComIpc.Topic

open Semantics SystemManager

section
variable {Id : Type}

def Event.broadcasts : Event Id → Bool
  | .publishRaw _ | .publishLoaned _ => true
  | _ => false

/-- No publisher dies between its first write and its broadcast. -/
def BroadcastFollows : State Id → Event Id → Prop
  | _, .publisherDies _ count => count = 0
  | _, _ => True

instance (s : State Id) (e : Event Id) : Decidable (BroadcastFollows s e) :=
  match e with
  | .publisherDies _ count => inferInstanceAs (Decidable (count = 0))
  | .publishRaw _ | .publishLoaned _ | .attach | .construct _ | .destroy _ | .receive _ _ _
  | .wake _ _ _ | .finish _ | .subscriberDies _ _ => isTrue trivial

theorem BroadcastFollows.completeOrUntouched (s : State Id) (e : Event Id)
    (follows : BroadcastFollows s e) : CompleteOrUntouched s e := by
  cases e with
  | publisherDies p count => exact .inl follows
  | _ => trivial

/-- The wait of the two receive functions. -/
def condNewMsg : Monitor (State Id) (Event Id) Id where
  acts := Event.subscriber
  waits := fun s i => ∃ sub call, s.subscribers i = some sub ∧ sub.phase = .waiting call
  ready := fun s i => ∃ sub, s.subscribers i = some sub ∧ sub.lastSeq < s.shm.seq
  wakes := fun _ e _ => e.broadcasts

variable [DecidableEq Id]

/-- The counter is raised by a step that broadcasts, or not at all. -/
theorem next_counter {s t : State Id} {e : Event Id} (follows : BroadcastFollows s e)
    (taken : next s e = some t) : t.shm.seq = s.shm.seq ∨ e.broadcasts = true := by
  cases e with
  | publishRaw | publishLoaned => exact .inr rfl
  | publisherDies p count =>
    simp only [next, Option.bind_eq_bind, Option.bind_eq_some_iff, Option.some.injEq] at taken
    obtain ⟨shm, died, rfl⟩ := taken
    exact .inl ((publishDies_change died).1 follows).seq
  | attach =>
    obtain ⟨_, same, rfl⟩ := next_attach taken
    exact .inl same.seq
  | construct j =>
    obtain ⟨_, same, _, rfl⟩ := next_construct taken
    exact .inl same.seq
  | destroy j =>
    obtain ⟨_, same, rfl⟩ := next_destroy taken
    exact .inl same.seq
  | receive j call shutdown =>
    obtain ⟨_, _, _, _, _, same, _, rfl⟩ := next_receive taken
    exact .inl same.seq
  | wake j cause shutdown =>
    obtain ⟨_, _, _, _, _, _, same, _, rfl⟩ := next_wake taken
    exact .inl same.seq
  | finish j =>
    obtain ⟨_, _, _, _, _, _, _, _, rfl⟩ := next_finish taken
    exact .inl rfl
  | subscriberDies j holding =>
    obtain ⟨_, same, rfl⟩ := next_subscriberDies taken
    exact .inl same.seq

theorem enqueuePrefix_seq (p : Publication) {count : Nat} (begun : count ≠ 0) (shm : TopicShm) :
    (enqueuePrefix p count shm).seq = shm.seq + 1 := by
  have kept : ∀ (writes : List (TopicShm → TopicShm)) (shm : TopicShm),
      (∀ write ∈ writes, ∀ shm, (write shm).seq = shm.seq) →
      (writes.foldl (fun s write => write s) shm).seq = shm.seq := by
    intro writes
    induction writes with
    | nil => exact fun _ _ => rfl
    | cons write rest ih =>
      intro shm keep
      rw [List.foldl_cons, ih _ fun w member => keep w (List.mem_cons_of_mem _ member)]
      exact keep write List.mem_cons_self shm
  obtain ⟨count, rfl⟩ := Nat.exists_eq_succ_of_ne_zero begun
  rw [enqueuePrefix, enqueueWrites, List.take_succ_cons, List.foldl_cons]
  refine kept _ _ fun write member => ?_
  have member := List.mem_of_mem_take member
  simp only [List.mem_cons, List.not_mem_nil, or_false] at member
  rcases member with rfl | rfl | rfl | rfl | rfl | rfl <;> exact fun _ => rfl

theorem next_publisherDies {s t : State Id} {p : Publication} {count : Nat}
    (taken : next s (.publisherDies p count) = some t) : t.subscribers = s.subscribers ∧
      t.shm.seq = if count = 0 then s.shm.seq else s.shm.seq + 1 := by
  simp only [next, Option.bind_eq_bind, Option.bind_eq_some_iff, Option.some.injEq] at taken
  obtain ⟨shm, died, rfl⟩ := taken
  refine ⟨rfl, ?_⟩
  obtain ⟨locked, acquired, rfl⟩ := Option.map_eq_some_iff.mp died
  obtain ⟨rfl, _⟩ := TopicShm.lockRobust_eq acquired
  by_cases begun : count = 0
  · rw [begun]
    rfl
  · rw [if_neg begun]
    exact enqueuePrefix_seq p begun { s.shm with mutex := .held }

end

end ComIpc.Topic
