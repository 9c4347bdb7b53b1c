import ComIpc.SystemManager.Moves

/-! Mutual exclusion by the manager mutex.

A process between the lock and the unlock is the only one there, whatever fails and whoever
dies; the mutex is free, or its owner has died, as soon as there is none.
-/

set_option autoImplicit false

namespace ComIpc.SystemManager.Steps

open Semantics

theorem Moves.holding {sh sh' : Shared} {pc pc' : Pc} (moves : Moves sh pc sh' pc') :
    pc'.holding = pc.holding := by
  cases moves <;> rfl

/-- Nothing shared is changed outside of the mutex. -/
theorem Moves.outside {sh sh' : Shared} {pc pc' : Pc} (moves : Moves sh pc sh' pc')
    (outside : pc.holding = false) : sh' = sh := by
  cases moves with
  | misses | opens | unmapped | joins | maps | unjoined | joined => rfl
  | _ => exact nomatch outside

section
variable {P : Type} [DecidableEq P]

/-- At most one process is between the lock and the unlock. -/
structure Exclusive (s : State P) : Prop where
  alone : ∀ p q, (s.pcs p).holding = true → (s.pcs q).holding = true → p = q
  held : ∀ p, (s.pcs p).holding = true → s.mutex = .held
  free : (∀ p, (s.pcs p).holding = false) → s.mutex.Usable

theorem Exclusive.goto {s : State P} (exclusive : Exclusive s) {p : P} {pc : Pc}
    {mutex : RobustMutex} (shared : Shared) (returned : List (Access × Nat))
    (enters : pc.holding = true → mutex = .held ∧ ∀ q, (s.pcs q).holding = true → q = p)
    (others : ∀ q, q ≠ p → (s.pcs q).holding = true → mutex = .held)
    (leaves : pc.holding = false → (∀ q, q ≠ p → (s.pcs q).holding = false) → mutex.Usable) :
    Exclusive (State.goto ⟨mutex, shared, s.pcs, returned⟩ p pc) where
  alone := by
    intro q r first second
    by_cases here : q = p <;> by_cases there : r = p
    · rw [here, there]
    · subst here
      simp only [State.goto, Function.update_self, Function.update_of_ne there] at first second
      exact ((enters first).2 r second).symm
    · subst there
      simp only [State.goto, Function.update_self, Function.update_of_ne here] at first second
      exact (enters second).2 q first
    · simp only [State.goto, Function.update_of_ne here, Function.update_of_ne there]
        at first second
      exact exclusive.alone q r first second
  held := by
    intro q inside
    by_cases same : q = p
    · subst same
      simp only [State.goto, Function.update_self] at inside
      exact (enters inside).1
    · simp only [State.goto, Function.update_of_ne same] at inside
      exact others q same inside
  free := by
    intro nobody
    have own := nobody p
    simp only [State.goto, Function.update_self] at own
    refine leaves own fun q other => ?_
    have outside := nobody q
    simp only [State.goto, Function.update_of_ne other] at outside
    exact outside

theorem Exclusive.stay {s : State P} (exclusive : Exclusive s) {p : P} {pc : Pc} (shared : Shared)
    (returned : List (Access × Nat)) (same : pc.holding = (s.pcs p).holding) :
    Exclusive (State.goto ⟨s.mutex, shared, s.pcs, returned⟩ p pc) := by
  refine exclusive.goto shared returned ?_ ?_ ?_
  · intro inside
    have inside := same.symm.trans inside
    exact ⟨exclusive.held p inside, fun q also => exclusive.alone q p also inside⟩
  · exact fun q _ also => exclusive.held q also
  · intro outside others
    refine exclusive.free fun q => ?_
    by_cases here : q = p
    · exact here ▸ same.symm.trans outside
    · exact others q here

theorem Exclusive.leave {s : State P} (exclusive : Exclusive s) {p : P} {pc : Pc}
    {mutex : RobustMutex} (inside : (s.pcs p).holding = true) (outside : pc.holding = false)
    (usable : mutex.Usable) :
    Exclusive (State.goto ⟨mutex, s.shared, s.pcs, s.returned⟩ p pc) := by
  refine exclusive.goto s.shared s.returned ?_ ?_ ?_
  · exact fun enters => absurd enters (Bool.eq_false_iff.mp outside)
  · exact fun q other also => absurd (exclusive.alone q p also inside) other
  · exact fun _ _ => usable

theorem Exclusive.step {s t : State P} {e : Event P} (exclusive : Exclusive s)
    (step : Step s e t) : Exclusive t := by
  cases step with
  | called idle => exact exclusive.stay s.shared s.returned (by rw [idle]; rfl)
  | @locked p c fails here usable =>
    have nobody : ∀ q, (s.pcs q).holding ≠ true := by
      intro q inside
      rw [exclusive.held q inside] at usable
      exact absurd usable (by decide)
    refine exclusive.goto s.shared s.returned ?_ ?_ nofun
    · exact fun _ => ⟨rfl, fun q inside => absurd inside (nobody q)⟩
    · exact fun _ _ _ => rfl
  | @released p c fails here =>
    have inside : (s.pcs p).holding = true := by rw [here]; rfl
    exact exclusive.leave inside rfl (.inl (by rw [exclusive.held p inside]; rfl))
  | @left p c result fails here =>
    have inside : (s.pcs p).holding = true := by rw [here]; rfl
    exact exclusive.leave inside rfl (.inl (by rw [exclusive.held p inside]; rfl))
  | returned here => exact exclusive.stay s.shared _ (by rw [here]; rfl)
  | moved moves => exact exclusive.stay _ s.returned moves.holding
  | @died p =>
    cases inside : (s.pcs p).holding with
    | true => exact exclusive.leave inside rfl (.inr (by rw [exclusive.held p inside]; rfl))
    | false => exact exclusive.stay s.shared s.returned inside.symm

theorem exclusive_initial {s : State P} (initial : (calls P).initial s) : Exclusive s := by
  obtain ⟨mutex, _, _, _, pcs, _⟩ := initial
  have nobody : ∀ p, (s.pcs p).holding ≠ true := by
    intro p
    rw [pcs]
    exact Bool.false_ne_true
  exact ⟨fun p _ inside => absurd inside (nobody p), fun p inside => absurd inside (nobody p),
    fun _ => .inl mutex⟩

theorem reachable_exclusive {s : State P} (reach : (calls P).Reachable s) : Exclusive s :=
  reach.invariant Exclusive (fun _ => exclusive_initial)
    fun _ _ _ exclusive _ taken => exclusive.step (next_step taken)

end

end ComIpc.SystemManager.Steps
