import ComIpc.Semantics.Machine

/-! Runs up to an ending step.

A property that holds until one of some steps is taken holds in every state that is
reached before the first of them. The rule for it is the invariant rule of a machine
that starts in the state where the wait begins.
-/

set_option autoImplicit false

namespace ComIpc.Semantics.Machine

variable {State Event : Type} (machine : Machine State Event)

def startingAt (s : State) : Machine State Event := { machine with initial := fun t => t = s }

/-- States reached by allowed steps none of which ends the wait. -/
def Before (allowed ends : State → Event → Prop) (s t : State) : Prop :=
  (machine.startingAt s).ReachableWhen (fun u e => allowed u e ∧ ¬ ends u e) t

variable {machine}

/-- The until rule: what every allowed step keeps that does not end the wait. -/
theorem Before.kept {allowed ends : State → Event → Prop} (holds : State → Prop)
    (kept : ∀ u e v, holds u → allowed u e → ¬ ends u e → machine.next u e = some v → holds v)
    {s t : State} (path : machine.Before allowed ends s t) (start : holds s) : holds t := by
  refine ReachableWhen.invariant holds ?_ ?_ path
  · rintro u rfl
    exact start
  · exact fun u e v before ok taken => kept u e v before ok.1 ok.2 taken

theorem Before.all_iff {allowed ends : State → Event → Prop} (kept : State → Prop)
    {holds : State → Prop}
    (keeps : ∀ u e v, kept u → allowed u e → ¬ ends u e → machine.next u e = some v → kept v)
    {s : State} (start : kept s) (same : ∀ u, kept u → (holds u ↔ holds s)) :
    (∀ u, machine.Before allowed ends s u → holds u) ↔ holds s := by
  constructor
  · intro all
    exact all s (.start rfl)
  · intro here u path
    exact (same u (path.kept kept keeps start)).mpr here

theorem Before.run {allowed ends : State → Event → Prop}
    [∀ s e, Decidable (allowed s e)] [∀ s e, Decidable (ends s e)] {s t : State}
    (schedule : List Event)
    (path : machine.runWhen (fun u e => allowed u e ∧ ¬ ends u e) s schedule = some t) :
    machine.Before allowed ends s t := by
  have same : ∀ (start : State) (events : List Event),
      (machine.startingAt s).runWhen (fun u e => allowed u e ∧ ¬ ends u e) start events =
        machine.runWhen (fun u e => allowed u e ∧ ¬ ends u e) start events := by
    intro start events
    induction events generalizing start with
    | nil => rfl
    | cons e rest ih => simp only [runWhen, startingAt, ← ih]
  exact ReachableWhen.runWhen (.start rfl) schedule (same s schedule ▸ path)

theorem Before.check {allowed ends : State → Event → Prop}
    [∀ s e, Decidable (allowed s e)] [∀ s e, Decidable (ends s e)] {s : State}
    (schedule : List Event) (check : State → Bool)
    (ok : (machine.runWhen (fun u e => allowed u e ∧ ¬ ends u e) s schedule).map check =
      some true) :
    ∃ t, machine.Before allowed ends s t ∧ check t = true := by
  obtain ⟨t, path, good⟩ := Option.map_eq_some_iff.mp ok
  exact ⟨t, Before.run schedule path, good⟩

end ComIpc.Semantics.Machine
