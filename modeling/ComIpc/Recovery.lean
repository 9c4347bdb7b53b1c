import ComIpc.Service.Recovery
import ComIpc.Topic.Recovery

/-! Self-healing of the topic and the service mutexes.

Both kinds heal on every explicit lock. A service mutex heals on every condition wait
too; a topic mutex does not, so it survives exactly as long as the process that finds
the dead owner comes through `lockRobust` and not out of a wait.
-/

set_option autoImplicit false

namespace ComIpc

open Semantics

/-- Runs of a topic keep its mutex usable if no wait re-acquires it from a dead owner, and
each step that does loses it; runs of a service keep its mutex usable whoever dies. -/
theorem mutexes_stay_usable {Id C D : Type} [DecidableEq Id] [DecidableEq C] [DecidableEq D] :
    (∀ s, (Topic.machine Id).ReachableWhen Topic.WaitsAfterRepair s → s.shm.mutex.Usable) ∧
    (∀ s e t, (Topic.machine Id).ReachableWhen Topic.WaitsAfterRepair s →
      (Topic.machine Id).next s e = some t →
      (t.shm.mutex.Usable ↔ Topic.WaitsAfterRepair s e)) ∧
    (∀ s, (Service.machine C D).Reachable s → s.shm.mutex.Usable) := by
  refine ⟨fun _ reach => Topic.reachable_usable reach, ?_,
    fun _ reach => Service.reachable_usable reach⟩
  intro s e t reach taken
  exact Topic.next_usable_iff (Topic.reachable_usable reach) taken

end ComIpc
