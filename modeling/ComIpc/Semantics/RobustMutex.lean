import Mathlib.Logic.Function.Basic

/-! POSIX robust mutexes, seen between the critical sections they protect.

Mutual exclusion lets one critical section be one step, so the owner's name is
not needed: what matters is whether the mutex is free, held, held after its
previous owner died, or lost for good.
-/

set_option autoImplicit false

namespace ComIpc.Semantics

inductive Ret where
  | ok
  | ownerDead
  | timedOut
  | notRecoverable
  | invalid
  deriving DecidableEq, Repr

inductive RobustMutex where
  | unlocked
  | held
  /-- Acquired from a dead owner and not yet marked consistent. -/
  | heldInconsistent
  /-- The owner died; the next acquisition reports it. -/
  | ownerDied
  | notRecoverable
  deriving DecidableEq, Repr

namespace RobustMutex

/-- `pthread_mutex_lock`; a held mutex blocks the caller, so it has no result. -/
def lock : RobustMutex → Option (RobustMutex × Ret)
  | unlocked => some (held, .ok)
  | ownerDied => some (heldInconsistent, .ownerDead)
  | notRecoverable => some (notRecoverable, .notRecoverable)
  | held | heldInconsistent => none

def consistent : RobustMutex → RobustMutex
  | heldInconsistent => held
  | m => m

/-- `pthread_mutex_unlock`: releasing an unrepaired mutex makes it unusable. -/
def unlock : RobustMutex → RobustMutex
  | held => unlocked
  | heldInconsistent => notRecoverable
  | m => m

def ownerDies : RobustMutex → RobustMutex
  | held | heldInconsistent => ownerDied
  | m => m

/-- The re-acquisition that ends a condition wait. `cause` is what the wait itself would
return; the state of the mutex takes precedence over it. -/
def reacquire (cause : Ret) (m : RobustMutex) : Option (RobustMutex × Ret) :=
  match m.lock with
  | some (m, .ok) => some (m, cause)
  | other => other

/-- Free or repairable by the next acquisition. -/
def Usable (m : RobustMutex) : Prop := m = unlocked ∨ m = ownerDied

instance (m : RobustMutex) : Decidable m.Usable := inferInstanceAs (Decidable (_ ∨ _))

@[simp] theorem unlock_held : unlock held = unlocked := rfl

@[simp] theorem consistent_held : consistent held = held := rfl

@[simp] theorem consistent_heldInconsistent : consistent heldInconsistent = held := rfl

theorem Usable.reacquire_repaired {m taken : RobustMutex} {cause ret : Ret} (usable : m.Usable)
    (acquired : m.reacquire cause = some (taken, ret)) :
    (if ret = .ownerDead then taken.consistent else taken) = held := by
  -- free: the wait returns its own cause; owner died: the state overrides the cause
  rcases usable with rfl | rfl <;>
    simp only [reacquire, RobustMutex.lock, Option.some.injEq, Prod.mk.injEq] at acquired <;>
    obtain ⟨rfl, rfl⟩ := acquired
  · simp
  · rfl

theorem Usable.reacquire_fine {m taken : RobustMutex} {cause ret : Ret} (usable : m.Usable)
    (acquired : m.reacquire cause = some (taken, ret)) (fine : ret = .ok) : taken = held := by
  simpa [fine] using usable.reacquire_repaired acquired

theorem reacquire_ok {m taken : RobustMutex} {cause ret : Ret}
    (acquired : m.reacquire cause = some (taken, ret)) (usable : m = unlocked) :
    taken = held ∧ ret = cause := by
  subst usable
  simp only [reacquire, RobustMutex.lock, Option.some.injEq, Prod.mk.injEq] at acquired
  exact ⟨acquired.1.symm, acquired.2.symm⟩

theorem reacquire_ownerDied {m taken : RobustMutex} {cause ret : Ret}
    (acquired : m.reacquire cause = some (taken, ret)) (died : m = ownerDied) :
    taken = heldInconsistent := by
  subst died
  simp only [reacquire, RobustMutex.lock, Option.some.injEq, Prod.mk.injEq] at acquired
  exact acquired.1.symm

end RobustMutex

end ComIpc.Semantics
