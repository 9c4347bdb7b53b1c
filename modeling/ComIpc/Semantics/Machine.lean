import Mathlib.Data.Option.Basic
import Mathlib.Logic.Function.Basic

/-! Partial labelled machines and their conditioned runs.

An event carries every choice of the scheduler and of the environment, so one
step is a partial function and a concrete run can be evaluated. A condition on
runs is a condition on each step: the state before it and its event.
-/

set_option autoImplicit false

namespace ComIpc.Semantics

@[simp] theorem guard_passed {p : Prop} [Decidable p] {u : Unit} :
    (guard p : Option Unit) = some u ↔ p := by
  by_cases holds : p <;> simp [guard, holds]

structure Machine (State Event : Type) where
  initial : State → Prop
  next : State → Event → Option State

namespace Machine

variable {State Event : Type} (machine : Machine State Event)

/-- States of the runs whose every step meets `allowed`. -/
inductive ReachableWhen (allowed : State → Event → Prop) : State → Prop where
  | start {s : State} : machine.initial s → ReachableWhen allowed s
  | step {s t : State} {e : Event} : ReachableWhen allowed s → allowed s e →
      machine.next s e = some t → ReachableWhen allowed t

abbrev Reachable : State → Prop := machine.ReachableWhen fun _ _ => True

def run (s : State) : List Event → Option State
  | [] => some s
  | e :: rest => (machine.next s e).bind fun t => run t rest

/-- Execute a finite schedule as long as its steps meet a decidable condition. -/
def runWhen (allowed : State → Event → Prop) [∀ s e, Decidable (allowed s e)] (s : State) :
    List Event → Option State
  | [] => some s
  | e :: rest =>
    if allowed s e then (machine.next s e).bind fun t => runWhen allowed t rest else none

/-- At most `n` steps of one party alone lead to a goal. -/
inductive EndsBy (own : Event → Prop) (goal : State → Prop) : Nat → State → Prop where
  | here {n : Nat} {s : State} : goal s → EndsBy own goal n s
  | step {n : Nat} {s t : State} {e : Event} : own e → machine.next s e = some t →
      EndsBy own goal n t → EndsBy own goal (n + 1) s

def Continues (s t : State) : Prop := ∃ schedule, machine.run s schedule = some t

variable {machine}

-- The weakest rule that the components need: the condition is used at each step only,
-- never for the run as a whole.

theorem run_append (s : State) (first second : List Event) :
    machine.run s (first ++ second) = (machine.run s first).bind fun t => machine.run t second := by
  induction first generalizing s with
  | nil => rfl
  | cons e rest ih =>
    simp only [List.cons_append, run, ih, Option.bind_assoc]

/-- The invariant rule: an initial property kept by every allowed step. -/
theorem ReachableWhen.invariant {allowed : State → Event → Prop} (holds : State → Prop)
    (base : ∀ s, machine.initial s → holds s)
    (kept : ∀ s e t, holds s → allowed s e → machine.next s e = some t → holds t)
    {s : State} (reach : machine.ReachableWhen allowed s) : holds s := by
  induction reach with
  | start init => exact base _ init
  | step _ ok taken ih => exact kept _ _ _ ih ok taken

theorem ReachableWhen.invariant_of {allowed : State → Event → Prop} (holds : State → Prop)
    (base : ∀ s, machine.initial s → holds s)
    (kept : ∀ s e t, machine.ReachableWhen allowed s → holds s → allowed s e →
      machine.next s e = some t → holds t)
    {s : State} (reach : machine.ReachableWhen allowed s) : holds s := by
  induction reach with
  | start init => exact base _ init
  | step before ok taken ih => exact kept _ _ _ before ih ok taken

theorem ReachableWhen.weaken {allowed wider : State → Event → Prop}
    (sub : ∀ s e, allowed s e → wider s e) {s : State}
    (reach : machine.ReachableWhen allowed s) : machine.ReachableWhen wider s := by
  induction reach with
  | start init => exact .start init
  | step _ ok taken ih => exact .step ih (sub _ _ ok) taken

theorem EndsBy.mono {own : Event → Prop} {goal : State → Prop} {n m : Nat} (le : n ≤ m)
    {s : State} (ends : machine.EndsBy own goal n s) : machine.EndsBy own goal m s := by
  induction ends generalizing m with
  | here done => exact .here done
  | step mine taken _ ih =>
    cases m with
    | zero => exact absurd le (Nat.not_succ_le_zero _)
    | succ m => exact .step mine taken (ih (Nat.le_of_succ_le_succ le))

theorem EndsBy.schedule {own : Event → Prop} {goal : State → Prop} {n : Nat} {s : State}
    (ends : machine.EndsBy own goal n s) : ∃ schedule t, schedule.length ≤ n ∧
      (∀ e ∈ schedule, own e) ∧ machine.run s schedule = some t ∧ goal t := by
  induction ends with
  | here done => exact ⟨[], _, Nat.zero_le _, (fun _ member => nomatch member), rfl, done⟩
  | @step n s u e mine taken _ ih =>
    obtain ⟨schedule, t, short, own, path, done⟩ := ih
    refine ⟨e :: schedule, t, Nat.succ_le_succ short, ?_, ?_, done⟩
    · exact List.forall_mem_cons.mpr ⟨mine, own⟩
    · rw [run, taken, Option.bind_some, path]

theorem Continues.kept (holds : State → Prop)
    (kept : ∀ s e t, holds s → machine.next s e = some t → holds t)
    {s t : State} (before : holds s) (path : machine.Continues s t) : holds t := by
  obtain ⟨schedule, path⟩ := path
  induction schedule generalizing s with
  | nil => exact Option.some.inj path ▸ before
  | cons e rest ih =>
    obtain ⟨u, taken, path⟩ := Option.bind_eq_some_iff.mp path
    exact ih (kept s e u before taken) path

theorem Reachable.continues {s t : State} (reach : machine.Reachable s)
    (path : machine.Continues s t) : machine.Reachable t :=
  path.kept machine.Reachable (fun _ _ _ before taken => .step before trivial taken) reach

theorem ReachableWhen.runWhen {allowed : State → Event → Prop}
    [∀ s e, Decidable (allowed s e)] {s t : State} (reach : machine.ReachableWhen allowed s)
    (schedule : List Event) (path : machine.runWhen allowed s schedule = some t) :
    machine.ReachableWhen allowed t := by
  induction schedule generalizing s with
  | nil => exact Option.some.inj path ▸ reach
  | cons e rest ih =>
    simp only [Machine.runWhen] at path
    split at path
    · rename_i ok
      obtain ⟨u, taken, path⟩ := Option.bind_eq_some_iff.mp path
      exact ih (.step reach ok taken) path
    · contradiction

/-- A decided property of the final state of an evaluated schedule. -/
theorem ReachableWhen.check {allowed : State → Event → Prop} [∀ s e, Decidable (allowed s e)]
    {s : State} (reach : machine.ReachableWhen allowed s) (schedule : List Event)
    (check : State → Bool) (ok : (machine.runWhen allowed s schedule).map check = some true) :
    ∃ t, machine.ReachableWhen allowed t ∧ check t = true := by
  obtain ⟨t, path, good⟩ := Option.map_eq_some_iff.mp ok
  exact ⟨t, reach.runWhen schedule path, good⟩

theorem reachable_of_check (machine : Machine State Event) (allowed : State → Event → Prop)
    [∀ s e, Decidable (allowed s e)] {s : State} (init : machine.initial s)
    (schedule : List Event) (check : State → Bool)
    (ok : (machine.runWhen allowed s schedule).map check = some true) :
    ∃ t, machine.ReachableWhen allowed t ∧ check t = true :=
  ReachableWhen.check (.start init) schedule check ok

theorem Reachable.getD {s : State} (reach : machine.Reachable s) (schedule : List Event)
    (other : State) (ends : (machine.run s schedule).isSome = true) :
    machine.Reachable ((machine.run s schedule).getD other) := by
  obtain ⟨t, path⟩ := Option.isSome_iff_exists.mp ends
  rw [path]
  exact reach.continues ⟨schedule, path⟩

end Machine

end ComIpc.Semantics
