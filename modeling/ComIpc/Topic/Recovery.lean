import ComIpc.Topic.Change

/-! The topic mutex across the deaths of its owners.

`lockRobust` repairs the mutex it acquires. The condition waits of the two receive
functions look at the return code only for `ETIMEDOUT`: a wait that re-acquires
the mutex of a dead owner releases it unrepaired.
-/

set_option autoImplicit false

namespace ComIpc.Topic

open Semantics SystemManager

section
variable {Id : Type}

/-- No condition wait re-acquires the mutex of a dead owner. -/
def WaitsAfterRepair : State Id → Event Id → Prop
  | s, .wake _ _ _ => s.shm.mutex ≠ .ownerDied
  | _, _ => True

instance (s : State Id) (e : Event Id) : Decidable (WaitsAfterRepair s e) :=
  match e with
  | .wake _ _ _ => inferInstanceAs (Decidable (s.shm.mutex ≠ .ownerDied))
  | .publishRaw _ | .publishLoaned _ | .publisherDies _ _ | .attach | .construct _ | .destroy _
  | .receive _ _ _ | .finish _ | .subscriberDies _ _ => isTrue trivial

theorem enqueuePrefix_mutex (p : Publication) (count : Nat) (shm : TopicShm) :
    (enqueuePrefix p count shm).mutex = shm.mutex := by
  have kept : ∀ (writes : List (TopicShm → TopicShm)) (shm : TopicShm),
      (∀ write ∈ writes, ∀ shm, (write shm).mutex = shm.mutex) →
      (writes.foldl (fun s write => write s) shm).mutex = shm.mutex := by
    intro writes
    induction writes with
    | nil => intro shm _; rfl
    | cons write rest ih =>
      intro shm keep
      rw [List.foldl_cons, ih _ fun w member => keep w (List.mem_cons_of_mem _ member)]
      exact keep write List.mem_cons_self shm
  refine kept _ shm fun write member => ?_
  have member := List.mem_of_mem_take member
  simp only [enqueueWrites, List.mem_cons, List.not_mem_nil, or_false] at member
  rcases member with rfl | rfl | rfl | rfl | rfl | rfl | rfl <;> exact fun _ => rfl

theorem publishLocked_mutex {p : Publication} {before after : TopicShm}
    (done : publishLocked p before = some after) :
    before.mutex.Usable ∧ after.mutex = .unlocked := by
  obtain ⟨locked, taken, rfl⟩ := Option.map_eq_some_iff.mp done
  obtain ⟨rfl, usable⟩ := TopicShm.lockRobust_eq taken
  refine ⟨usable, ?_⟩
  simp only [TopicShm.unlock, enqueue, enqueuePrefix_mutex]
  rfl

theorem publishDies_mutex {p : Publication} {count : Nat} {before after : TopicShm}
    (died : publishDies p count before = some after) :
    before.mutex.Usable ∧ after.mutex = .ownerDied := by
  obtain ⟨locked, taken, rfl⟩ := Option.map_eq_some_iff.mp died
  obtain ⟨rfl, usable⟩ := TopicShm.lockRobust_eq taken
  refine ⟨usable, ?_⟩
  simp only [TopicShm.ownerDies, enqueuePrefix_mutex]
  rfl

/-- A wait releases the mutex in the state in which it re-acquired it. -/
inductive Wakes (s t : State Id) : Event Id → Prop where
  | released {mutex : RobustMutex} {ret : Ret} (i : Id) (cause : Ret) (shutdown : Bool) :
      s.shm.mutex.reacquire cause = some (mutex, ret) → t.shm.mutex = mutex.unlock →
      Wakes s t (.wake i cause shutdown)

/-- The other tenures of the mutex begin with `lockRobust`. -/
inductive Tenure (s t : State Id) : Prop where
  | none : t.shm.mutex = s.shm.mutex → Tenure s t
  | repaired : s.shm.mutex.Usable → t.shm.mutex.Usable → Tenure s t

end

section
variable {Id : Type} [DecidableEq Id]

theorem next_released {s t : State Id} {e : Event Id} (alive : NoDeath s e)
    (taken : next s e = some t) :
    (WaitsAfterRepair s e ∧ (t.shm.mutex = s.shm.mutex ∨
      s.shm.mutex.Usable ∧ t.shm.mutex = .unlocked)) ∨ Wakes s t e := by
  cases e with
  | publisherDies | subscriberDies => exact alive.elim
  | publishRaw p | publishLoaned p =>
    simp only [next, Option.bind_eq_bind, Option.bind_eq_some_iff, Option.some.injEq] at taken
    obtain ⟨shm, done, rfl⟩ := taken
    exact .inl ⟨trivial, .inr (publishLocked_mutex done)⟩
  | attach =>
    simp only [next, Option.bind_eq_bind, Option.bind_eq_some_iff, Option.some.injEq] at taken
    obtain ⟨shm, locked, rfl⟩ := taken
    obtain ⟨rfl, usable⟩ := TopicShm.lockRobust_eq locked
    exact .inl ⟨trivial, .inr ⟨usable, rfl⟩⟩
  | construct i =>
    simp only [next, Option.bind_eq_bind, Option.bind_eq_some_iff, Option.some.injEq] at taken
    obtain ⟨shm, locked, _, _, rfl⟩ := taken
    obtain ⟨rfl, usable⟩ := TopicShm.lockRobust_eq locked
    exact .inl ⟨trivial, .inr ⟨usable, rfl⟩⟩
  | destroy i =>
    simp only [next, Option.bind_eq_bind, Option.bind_eq_some_iff, Option.some.injEq] at taken
    obtain ⟨sub, alive, shm, locked, _, _, rfl⟩ := taken
    obtain ⟨rfl, usable⟩ := TopicShm.lockRobust_eq locked
    exact .inl ⟨trivial, .inr ⟨usable, rfl⟩⟩
  | receive i call shutdown =>
    simp only [next, Option.bind_eq_bind, Option.bind_eq_some_iff, Option.some.injEq] at taken
    obtain ⟨sub, alive, shm, locked, _, _, rfl⟩ := taken
    obtain ⟨rfl, usable⟩ := TopicShm.lockRobust_eq locked
    have released := (receiveLocked_entered { s.shm with mutex := .held } sub.lastSeq call
      shutdown s.published.length).1
    refine .inl ⟨trivial, .inr ⟨usable, ?_⟩⟩
    simp only [State.put, released]
    rfl
  | wake i cause shutdown =>
    simp only [next, Option.bind_eq_bind, Option.bind_eq_some_iff] at taken
    obtain ⟨sub, alive, ⟨mutex, ret⟩, acquired, taken⟩ := taken
    split at taken
    · rename_i call _
      have released := (wakeLocked_entered { s.shm with mutex := mutex } sub.lastSeq call ret
        shutdown s.published.length).1
      obtain rfl := Option.some.inj taken
      refine .inr (.released i cause shutdown acquired ?_)
      simp only [State.put, released]
      rfl
    · contradiction
  | finish i =>
    obtain ⟨_, _, _, _, _, _, _, _, rfl⟩ := next_finish taken
    exact .inl ⟨trivial, .inl rfl⟩

theorem next_mutex {s t : State Id} {e : Event Id} (taken : next s e = some t) :
    (WaitsAfterRepair s e ∧ Tenure s t) ∨ Wakes s t e := by
  cases e with
  | publisherDies p count =>
    simp only [next, Option.bind_eq_bind, Option.bind_eq_some_iff, Option.some.injEq] at taken
    obtain ⟨shm, died, rfl⟩ := taken
    obtain ⟨usable, left⟩ := publishDies_mutex died
    exact .inl ⟨trivial, .repaired usable (.inr left)⟩
  | subscriberDies i holding =>
    simp only [next, Option.bind_eq_bind, Option.bind_eq_some_iff, Option.some.injEq] at taken
    obtain ⟨mutex, died, _, _, rfl⟩ := taken
    refine .inl ⟨trivial, ?_⟩
    cases holding with
    | false => exact .none (Option.some.inj died).symm
    | true => exact .repaired (dieHolding_usable died) (.inr (dieHolding_eq died))
  | _ =>
    refine (next_released ?_ taken).imp_left (And.imp_right ?_)
    · trivial
    · rintro (same | ⟨usable, released⟩)
      · exact .none same
      · exact .repaired usable (.inl released)

/-- A step keeps the mutex usable exactly when it is not a wait that forgets the repair. -/
theorem next_usable_iff {s t : State Id} {e : Event Id} (usable : s.shm.mutex.Usable)
    (taken : next s e = some t) : t.shm.mutex.Usable ↔ WaitsAfterRepair s e := by
  rcases next_mutex taken with ⟨repairs, same | ⟨_, kept⟩⟩ | ⟨i, cause, shutdown, acquired, left⟩
  · exact iff_of_true (same ▸ usable) repairs
  · exact iff_of_true kept repairs
  -- a wait: it releases what it re-acquired, and only a dead owner's mutex is unrepaired
  · rcases usable with free | died
    · obtain ⟨rfl, _⟩ := RobustMutex.reacquire_ok acquired free
      exact iff_of_true (.inl left) (by simp [WaitsAfterRepair, free])
    · refine iff_of_false ?_ (by simp [WaitsAfterRepair, died])
      rw [RobustMutex.reacquire_ownerDied acquired died] at left
      simp [left, RobustMutex.unlock, RobustMutex.Usable]

theorem reachable_usable {s : State Id}
    (reach : (machine Id).ReachableWhen WaitsAfterRepair s) : s.shm.mutex.Usable := by
  refine reach.invariant (fun s => s.shm.mutex.Usable) ?_ fun s e t usable repairs taken =>
    (next_usable_iff usable taken).mpr repairs
  rintro s rfl
  exact .inl rfl

theorem next_lost {s t : State Id} {e : Event Id} (lost : s.shm.mutex = .notRecoverable)
    (taken : next s e = some t) : t.shm.mutex = .notRecoverable := by
  rcases next_mutex taken with ⟨_, same | ⟨usable, _⟩⟩ | ⟨i, cause, shutdown, acquired, left⟩
  · exact same.trans lost
  · simp [lost, RobustMutex.Usable] at usable
  · rw [lost] at acquired
    obtain ⟨rfl, _⟩ := Prod.mk.inj (Option.some.inj acquired)
    exact left

/-- A publisher dies while a subscriber waits; the waiter's re-acquisition loses the mutex
for everybody and for good. -/
theorem waiter_loses_mutex :
    ∃ s : State Nat, (machine Nat).Reachable s ∧ s.shm.mutex = .notRecoverable ∧
      ∀ t, (machine Nat).Continues s t → t.shm.mutex = .notRecoverable := by
  obtain ⟨s, reach, lost⟩ := Machine.reachable_of_check (machine Nat) (fun _ _ => True) rfl
    [.construct 0, .receive 0 (.loaned (-1)) false, .publisherDies ⟨.custom, 8, 0, 1⟩ 1,
      .wake 0 .ok false]
    (fun s => decide (s.shm.mutex = .notRecoverable)) (by decide)
  have lost := of_decide_eq_true lost
  exact ⟨s, reach, lost, fun t path =>
    path.kept (fun s => s.shm.mutex = .notRecoverable)
      (fun _ _ _ lost taken => next_lost lost taken) lost⟩

end

end ComIpc.Topic
