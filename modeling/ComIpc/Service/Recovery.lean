import ComIpc.Service.Machine

/-! The service mutex across the deaths of its owners.

Every wait of the service channel looks at the return code: a client that fails for
any reason repairs the mutex before it leaves, and the server repairs it before it
waits again.
-/

set_option autoImplicit false

namespace ComIpc.Service

open Semantics SystemManager

section
variable {C D : Type}

theorem postWhenFree_mutex [DecidableEq C] {s : State C D} (held : s.shm.mutex = .held) (c : C)
    (client : Client) (call : Call) (shutdown interrupted : Bool) :
    (postWhenFree s c client call shutdown interrupted).shm.mutex = .unlocked := by
  unfold postWhenFree
  split
  · exact congrArg RobustMutex.unlock held
  · split <;> exact congrArg RobustMutex.unlock held

theorem takeResponse_mutex [DecidableEq C] {s : State C D} (held : s.shm.mutex = .held) (c : C)
    (client : Client) (call : Call) (ticket : Nat) (shutdown : Bool) :
    (takeResponse s c client call ticket shutdown).shm.mutex = .unlocked := by
  unfold takeResponse
  split
  · exact congrArg RobustMutex.unlock held
  · split <;> exact congrArg RobustMutex.unlock held

theorem leaveLoop_mutex [DecidableEq D] {s : State C D} (held : s.shm.mutex = .held) (d : D)
    (running shutdown : Bool) :
    (leaveLoop s d running shutdown).shm.mutex = .unlocked := by
  unfold leaveLoop pickUp
  split
  · exact congrArg RobustMutex.unlock held
  · split <;> exact congrArg RobustMutex.unlock held

theorem waitLoop_mutex [DecidableEq D] {s : State C D} (held : s.shm.mutex = .held) (d : D)
    (running shutdown : Bool) :
    (waitLoop s d running shutdown).shm.mutex = .unlocked := by
  unfold waitLoop
  split
  · exact congrArg RobustMutex.unlock held
  · exact leaveLoop_mutex held d running shutdown

theorem lockRobust_mutex {shm locked : ServiceShm} (taken : shm.lockRobust = some locked) :
    locked.mutex = .held := by
  rw [(ServiceShm.lockRobust_eq taken).1]

theorem slotAfterDeath_usable {holding : Bool} {shm leftover after : ServiceShm}
    (usable : shm.mutex.Usable) (died : slotAfterDeath holding shm leftover = some after) :
    after.mutex.Usable := by
  simp only [slotAfterDeath, Option.bind_eq_bind, Option.bind_eq_some_iff,
    Option.some.injEq] at died
  obtain ⟨mutex, died, rfl⟩ := died
  exact dieAt_usable died usable

variable [DecidableEq C] [DecidableEq D]

/-- No step of the service channel, deaths included, loses the mutex. -/
theorem next_usable {s t : State C D} {e : Event C D} (usable : s.shm.mutex.Usable)
    (taken : next s e = some t) : t.shm.mutex.Usable := by
  cases e with
  | connect c pid =>
    simp only [next, Option.bind_eq_bind, Option.bind_eq_some_iff, Option.some.injEq] at taken
    obtain ⟨_, _, rfl⟩ := taken
    exact usable
  | call c call shutdown interrupted =>
    simp only [next, Option.bind_eq_bind, Option.bind_eq_some_iff, Option.some.injEq] at taken
    obtain ⟨client, _, _, _, shm, locked, rfl⟩ := taken
    exact .inl (postWhenFree_mutex (lockRobust_mutex locked) c client call shutdown interrupted)
  | freeWake c cause shutdown interrupted =>
    simp only [next, Option.bind_eq_bind, Option.bind_eq_some_iff] at taken
    obtain ⟨client, _, ⟨mutex, ret⟩, acquired, taken⟩ := taken
    split at taken
    · split at taken <;> obtain rfl := Option.some.inj taken
      · exact .inl (congrArg RobustMutex.unlock (usable.reacquire_repaired acquired))
      · rename_i fine
        exact .inl (postWhenFree_mutex (usable.reacquire_fine acquired (by simpa using fine))
          c client _ shutdown interrupted)
    · contradiction
  | responseWake c cause shutdown =>
    simp only [next, Option.bind_eq_bind, Option.bind_eq_some_iff] at taken
    obtain ⟨client, _, ⟨mutex, ret⟩, acquired, taken⟩ := taken
    split at taken
    · split at taken <;> obtain rfl := Option.some.inj taken
      · exact .inl (congrArg RobustMutex.unlock (usable.reacquire_repaired acquired))
      · rename_i fine
        exact .inl (takeResponse_mutex (usable.reacquire_fine acquired (by simpa using fine))
          c client _ _ shutdown)
    · contradiction
  | serviceLoop d running shutdown =>
    simp only [next, Option.bind_eq_bind, Option.bind_eq_some_iff, Option.some.injEq] at taken
    obtain ⟨_, _, shm, locked, rfl⟩ := taken
    exact .inl (waitLoop_mutex (lockRobust_mutex locked) d running shutdown)
  | loopWake d cause running shutdown =>
    simp only [next, Option.bind_eq_bind, Option.bind_eq_some_iff] at taken
    obtain ⟨_, _, ⟨mutex, ret⟩, acquired, taken⟩ := taken
    have repaired := usable.reacquire_repaired acquired
    -- the loop itself repairs the mutex before it tests its flags again
    split at taken
    · rename_i ownerDead
      rw [if_pos ownerDead] at repaired
      obtain rfl := Option.some.inj taken
      exact .inl (waitLoop_mutex repaired d running shutdown)
    · rename_i alive
      rw [if_neg alive] at repaired
      split at taken <;> obtain rfl := Option.some.inj taken
      · exact .inl (leaveLoop_mutex repaired d running shutdown)
      · exact .inl (waitLoop_mutex repaired d running shutdown)
  | spinOnce d =>
    simp only [next, Option.bind_eq_bind, Option.bind_eq_some_iff, Option.some.injEq] at taken
    obtain ⟨_, _, shm, locked, rfl⟩ := taken
    exact .inl (leaveLoop_mutex (lockRobust_mutex locked) d true false)
  | complete d outcome =>
    simp only [next] at taken
    split at taken
    · simp only [Option.bind_eq_bind, Option.bind_eq_some_iff, Option.some.injEq] at taken
      obtain ⟨shm, locked, rfl⟩ := taken
      exact .inl (congrArg RobustMutex.unlock (lockRobust_mutex locked))
    · contradiction
  | clientDies c holding leftover =>
    simp only [next, Option.bind_eq_bind, Option.bind_eq_some_iff, Option.some.injEq] at taken
    obtain ⟨_, _, shm, died, rfl⟩ := taken
    exact slotAfterDeath_usable usable died
  | driverDies d holding leftover =>
    simp only [next, Option.bind_eq_bind, Option.bind_eq_some_iff, Option.some.injEq] at taken
    obtain ⟨shm, died, rfl⟩ := taken
    exact slotAfterDeath_usable usable died

theorem reachable_usable {s : State C D} (reach : (machine C D).Reachable s) :
    s.shm.mutex.Usable := by
  refine reach.invariant (fun s => s.shm.mutex.Usable) ?_
    fun s e t usable _ taken => next_usable usable taken
  rintro s rfl
  exact .inl rfl

end

end ComIpc.Service
