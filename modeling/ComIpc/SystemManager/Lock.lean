import ComIpc.Semantics.RobustMutex

/-! The locking wrapper that every component uses. -/

set_option autoImplicit false

namespace ComIpc.SystemManager

open Semantics

/-- Lock and, when the previous owner died, repair the mutex (not the data it protects).
The flag says whether that happened. There is no result where the call does not return:
a held mutex blocks it, and on any other error it throws. -/
def lockRobust (mutex : RobustMutex) : Option (RobustMutex × Bool) :=
  match mutex.lock with
  | some (taken, .ok) => some (taken, false)
  | some (taken, .ownerDead) => some (taken.consistent, true)
  | _ => none

theorem lockRobust_held {mutex taken : RobustMutex} {recovered : Bool}
    (locked : lockRobust mutex = some (taken, recovered)) :
    taken = .held ∧ mutex.Usable := by
  cases mutex <;> simp_all [lockRobust, RobustMutex.lock, RobustMutex.Usable]

theorem lockRobust_usable {mutex : RobustMutex} (usable : mutex.Usable) :
    ∃ recovered, lockRobust mutex = some (.held, recovered) := by
  rcases usable with rfl | rfl
  · exact ⟨false, rfl⟩
  · exact ⟨true, rfl⟩

def dieHolding (mutex : RobustMutex) : Option RobustMutex :=
  (lockRobust mutex).map fun taken => taken.1.ownerDies

theorem dieHolding_eq {mutex left : RobustMutex} (died : dieHolding mutex = some left) :
    left = .ownerDied := by
  obtain ⟨⟨taken, recovered⟩, locked, rfl⟩ := Option.map_eq_some_iff.mp died
  rw [(lockRobust_held locked).1]
  rfl

theorem dieHolding_usable {mutex left : RobustMutex} (died : dieHolding mutex = some left) :
    mutex.Usable := by
  obtain ⟨⟨taken, recovered⟩, locked, _⟩ := Option.map_eq_some_iff.mp died
  exact (lockRobust_held locked).2

def dieAt (holding : Bool) (mutex : RobustMutex) : Option RobustMutex :=
  if holding then dieHolding mutex else some mutex

theorem dieAt_usable {holding : Bool} {before after : RobustMutex}
    (died : dieAt holding before = some after) (usable : before.Usable) : after.Usable := by
  cases holding with
  | false => exact Option.some.inj died ▸ usable
  | true => exact .inr (dieHolding_eq died)

end ComIpc.SystemManager
