import ComIpc.Semantics.Machine

/-! Observed runs and refinement.

An observer sees a list of observations of each step, often none. A machine refines
another one when every list it can show is one that the other can show. A simulation
proves it step by step: a concrete step is matched by one abstract step with the same
observations, or by none where there is nothing to see.
-/

set_option autoImplicit false

namespace ComIpc.Semantics

namespace Machine

variable {State Event Seen : Type}

/-- The runs whose every step meets `allowed`, with all that was seen on the way. -/
inductive Traces (machine : Machine State Event) (allowed : State → Event → Prop)
    (observe : State → Event → State → List Seen) : State → List Seen → Prop where
  | start {s : State} : machine.initial s → Traces machine allowed observe s []
  | step {s t : State} {e : Event} {seen : List Seen} :
      Traces machine allowed observe s seen → allowed s e → machine.next s e = some t →
      Traces machine allowed observe t (seen ++ observe s e t)

def watchedRun (machine : Machine State Event) (allowed : State → Event → Prop)
    [∀ s e, Decidable (allowed s e)] (observe : State → Event → State → List Seen) (s : State) :
    List Event → Option (State × List Seen)
  | [] => some (s, [])
  | e :: rest =>
    if allowed s e then do
      let t ← machine.next s e
      let (last, seen) ← watchedRun machine allowed observe t rest
      some (last, observe s e t ++ seen)
    else none

variable {machine : Machine State Event} {allowed : State → Event → Prop}
  {observe : State → Event → State → List Seen}

theorem Traces.reachable {s : State} {seen : List Seen}
    (trace : machine.Traces allowed observe s seen) : machine.ReachableWhen allowed s := by
  induction trace with
  | start init => exact .start init
  | step _ ok taken ih => exact .step ih ok taken

theorem ReachableWhen.traced {s : State} (reach : machine.ReachableWhen allowed s) :
    ∃ seen, machine.Traces allowed observe s seen := by
  induction reach with
  | start init => exact ⟨[], .start init⟩
  | step _ ok taken ih =>
    obtain ⟨seen, trace⟩ := ih
    exact ⟨_, trace.step ok taken⟩

theorem Traces.watchedRun [∀ s e, Decidable (allowed s e)] {s t : State} {before after : List Seen}
    (trace : machine.Traces allowed observe s before) (schedule : List Event)
    (path : machine.watchedRun allowed observe s schedule = some (t, after)) :
    machine.Traces allowed observe t (before ++ after) := by
  induction schedule generalizing s before after with
  | nil =>
    obtain ⟨rfl, rfl⟩ := Prod.mk.inj (Option.some.inj path)
    rwa [List.append_nil]
  | cons e rest ih =>
    simp only [Machine.watchedRun] at path
    split at path
    · rename_i ok
      simp only [Option.bind_eq_bind, Option.bind_eq_some_iff, Option.some.injEq,
        Prod.mk.injEq] at path
      obtain ⟨u, taken, ⟨last, seen⟩, path, rfl, rfl⟩ := path
      rw [← List.append_assoc]
      exact ih (trace.step ok taken) path
    · contradiction

theorem Traces.invariant (holds : State → List Seen → Prop)
    (base : ∀ s, machine.initial s → holds s [])
    (kept : ∀ s e t seen, holds s seen → allowed s e → machine.next s e = some t →
      holds t (seen ++ observe s e t))
    {s : State} {seen : List Seen} (trace : machine.Traces allowed observe s seen) :
    holds s seen := by
  induction trace with
  | start init => exact base _ init
  | step _ ok taken ih => exact kept _ _ _ _ ih ok taken

theorem Traces.length_le (works : State → Nat → Prop)
    (base : ∀ s, machine.initial s → ∃ n, works s n)
    (raised : ∀ s e t n, machine.ReachableWhen allowed s → works s n → allowed s e →
      machine.next s e = some t → ∃ m, n < m ∧ works t m)
    {s : State} {seen : List Unit} (trace : machine.Traces allowed (fun _ _ _ => [()]) s seen) :
    ∃ n, works s n ∧ seen.length ≤ n := by
  induction trace with
  | start init =>
    obtain ⟨n, works⟩ := base _ init
    exact ⟨n, works, Nat.zero_le n⟩
  | step before ok taken ih =>
    obtain ⟨n, works, bound⟩ := ih
    obtain ⟨m, more, works⟩ := raised _ _ _ n before.reachable works ok taken
    refine ⟨m, works, ?_⟩
    rw [List.length_append]
    exact Nat.lt_of_le_of_lt bound more

end Machine

section
variable {State Event Abstract Action Seen : Type} {concrete : Machine State Event}
  {allowed : State → Event → Prop} {observe : State → Event → State → List Seen}
  {abstract : Machine Abstract Action} {permitted : Abstract → Action → Prop}
  {shows : Abstract → Action → Abstract → List Seen} {relates : State → Abstract → Prop}

/-- The concrete machine is matched by the abstract one, along a relation of their states. -/
structure Simulation (concrete : Machine State Event) (allowed : State → Event → Prop)
    (observe : State → Event → State → List Seen) (abstract : Machine Abstract Action)
    (permitted : Abstract → Action → Prop) (shows : Abstract → Action → Abstract → List Seen)
    (relates : State → Abstract → Prop) : Prop where
  start : ∀ s, concrete.initial s → ∃ a, abstract.initial a ∧ relates s a
  step : ∀ s e t a, relates s a → allowed s e → concrete.next s e = some t →
    ∃ b, relates t b ∧ ((b = a ∧ observe s e t = []) ∨ ∃ action, permitted a action ∧
      abstract.next a action = some b ∧ shows a action b = observe s e t)

/-- Whatever the concrete machine shows, the abstract one can show. -/
theorem Simulation.traces
    (simulation : Simulation concrete allowed observe abstract permitted shows relates) {s : State}
    {seen : List Seen} (trace : concrete.Traces allowed observe s seen) :
    ∃ a, relates s a ∧ abstract.Traces permitted shows a seen := by
  induction trace with
  | start init =>
    obtain ⟨a, begins, related⟩ := simulation.start _ init
    exact ⟨a, related, .start begins⟩
  | @step s t e seen _ ok taken ih =>
    obtain ⟨a, related, before⟩ := ih
    obtain ⟨b, after, ⟨rfl, nothing⟩ | ⟨action, may, moved, same⟩⟩ :=
      simulation.step s e t a related ok taken
    · rw [nothing, List.append_nil]
      exact ⟨b, after, before⟩
    · rw [← same]
      exact ⟨b, after, before.step may moved⟩

end

end ComIpc.Semantics
