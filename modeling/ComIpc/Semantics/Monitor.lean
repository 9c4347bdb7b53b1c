import ComIpc.Semantics.Machine

/-! Condition waits inside a machine.

A wait begins in the step that tested its loop and released the mutex, so no broadcast
falls between the two. It ends for a broadcast, at its deadline or for no reason at all.
What can still go wrong is a step that would let a sleeper go on and does not broadcast.
The watched machine remembers for each thread whether a broadcast has reached it since
its own last step.
-/

set_option autoImplicit false

namespace ComIpc.Semantics

structure Monitor (State Event Thread : Type) where
  acts : Event → Option Thread
  waits : State → Thread → Prop
  /-- The test of the loop around the wait lets the thread go on. -/
  ready : State → Thread → Prop
  /-- The step broadcasts on the variable that the thread waits on. -/
  wakes : State → Event → Thread → Bool

structure Watched (State Thread : Type) where
  state : State
  notified : Thread → Bool

namespace Monitor

variable {State Event Thread : Type} [DecidableEq Thread]

def watch (monitor : Monitor State Event Thread) (machine : Machine State Event) :
    Machine (Watched State Thread) Event where
  initial := fun w => machine.initial w.state ∧ w.notified = fun _ => false
  next := fun w e => (machine.next w.state e).map fun after => ⟨after, fun i =>
    if monitor.acts e = some i then false else w.notified i || monitor.wakes w.state e i⟩

/-- What a machine has to do for its monitor, in the steps of some of its runs. -/
structure Kept (monitor : Monitor State Event Thread) (machine : Machine State Event)
    (allowed : State → Event → Prop) : Prop where
  start : ∀ s, machine.initial s → ∀ i, ¬ monitor.waits s i
  /-- A thread goes to sleep only where its test says so. -/
  own : ∀ s e t i, allowed s e → machine.next s e = some t → monitor.acts e = some i →
    monitor.waits t i → ¬ monitor.ready t i
  asleep : ∀ s e t i, allowed s e → machine.next s e = some t → monitor.acts e ≠ some i →
    monitor.waits t i → monitor.waits s i
  /-- Whoever lets it go on broadcasts. -/
  other : ∀ s e t i, allowed s e → machine.next s e = some t → monitor.acts e ≠ some i →
    monitor.waits t i → monitor.ready t i → monitor.ready s i ∨ monitor.wakes s e i = true

variable {monitor : Monitor State Event Thread} {machine : Machine State Event}

theorem watch_next {w v : Watched State Thread} {e : Event}
    (taken : (monitor.watch machine).next w e = some v) :
    machine.next w.state e = some v.state ∧ ∀ i, v.notified i =
      if monitor.acts e = some i then false else w.notified i || monitor.wakes w.state e i := by
  obtain ⟨after, stepped, rfl⟩ := Option.map_eq_some_iff.mp taken
  exact ⟨stepped, fun _ => rfl⟩

/-- The monitor rule: whoever sleeps although the test would let it go on has been reached
by a broadcast. -/
theorem Kept.notified {allowed : State → Event → Prop} (kept : monitor.Kept machine allowed)
    {w : Watched State Thread}
    (reach : (monitor.watch machine).ReachableWhen (fun w e => allowed w.state e) w) {i : Thread}
    (waits : monitor.waits w.state i) (ready : monitor.ready w.state i) : w.notified i = true := by
  induction reach with
  | start init => exact absurd waits (kept.start _ init.1 i)
  | @step w v e _ ok taken ih =>
    obtain ⟨stepped, notified⟩ := watch_next taken
    by_cases self : monitor.acts e = some i
    · exact absurd ready (kept.own _ e _ i ok stepped self waits)
    · rw [notified i, if_neg self, Bool.or_eq_true]
      rcases kept.other _ e _ i ok stepped self waits ready with before | now
      · exact .inl (ih (kept.asleep _ e _ i ok stepped self waits) before)
      · exact .inr now

theorem watch_quiet {w v : Watched State Thread} {e : Event} {i : Thread}
    (taken : (monitor.watch machine).next w e = some v) (asleep : w.notified i = false)
    (quiet : monitor.wakes w.state e i = false) : v.notified i = false := by
  rw [(watch_next taken).2 i, asleep, quiet]
  exact ite_self false

section
variable {Left Right : Type}

/-- Two groups of threads, each step of which belongs to at most one group. -/
def both (left : Monitor State Event Left) (right : Monitor State Event Right) :
    Monitor State Event (Left ⊕ Right) where
  acts := fun e => ((left.acts e).map .inl).or ((right.acts e).map .inr)
  waits := fun s => Sum.elim (left.waits s) (right.waits s)
  ready := fun s => Sum.elim (left.ready s) (right.ready s)
  wakes := fun s e => Sum.elim (left.wakes s e) (right.wakes s e)

variable {left : Monitor State Event Left} {right : Monitor State Event Right}

theorem both_acts_left {e : Event} {i : Left} :
    (left.both right).acts e = some (.inl i) ↔ left.acts e = some i := by
  cases own : left.acts e <;> simp [both, own]

theorem both_acts_right {e : Event} {i : Right} (apart : left.acts e = none ∨ right.acts e = none) :
    (left.both right).acts e = some (.inr i) ↔ right.acts e = some i := by
  rcases apart with nobody | nobody
  · simp [both, nobody]
  · cases own : left.acts e <;> simp [both, own, nobody]

theorem Kept.both {allowed : State → Event → Prop} (first : left.Kept machine allowed)
    (second : right.Kept machine allowed)
    (apart : ∀ e, left.acts e = none ∨ right.acts e = none) :
    (left.both right).Kept machine allowed where
  start := by
    rintro s init (i | i)
    · exact first.start s init i
    · exact second.start s init i
  own := by
    rintro s e t (i | i) ok taken acts
    · exact first.own s e t i ok taken (both_acts_left.mp acts)
    · exact second.own s e t i ok taken ((both_acts_right (apart e)).mp acts)
  asleep := by
    rintro s e t (i | i) ok taken acts
    · exact first.asleep s e t i ok taken fun own => acts (both_acts_left.mpr own)
    · exact second.asleep s e t i ok taken fun own => acts ((both_acts_right (apart e)).mpr own)
  other := by
    rintro s e t (i | i) ok taken acts
    · exact first.other s e t i ok taken fun own => acts (both_acts_left.mpr own)
    · exact second.other s e t i ok taken fun own => acts ((both_acts_right (apart e)).mpr own)

end

end Monitor

end ComIpc.Semantics
