import Mathlib.Data.List.Basic

/-! Components that answer a stream of inputs, and inputs that should not matter to them.

Two runs are compared, one over all inputs and one over the inputs that are kept. They
agree at every moment exactly when each of the other inputs is silent where it arrives,
in the state that the kept inputs before it have led to.
-/

set_option autoImplicit false

namespace ComIpc.Semantics.Filtering

variable {State Input Output : Type} (step : State → Input → State × Option Output)
  (keep : Input → Bool)

def run (s : State) : List Input → State × List Output
  | [] => (s, [])
  | a :: later => ((run (step s a).1 later).1, (step s a).2.toList ++ (run (step s a).1 later).2)

def Silent (s : State) (a : Input) : Prop := step s a = (s, none)

def Quiet (s : State) : List Input → Prop
  | [] => True
  | a :: later =>
    if keep a then Quiet (step s a).1 later else Silent step s a ∧ Quiet s later

/-- The inputs that are not kept make no difference at any moment. -/
def Agrees (s : State) (inputs : List Input) : Prop :=
  ∀ early, early <+: inputs → run step s early = run step s (early.filter keep)

variable {step keep}

theorem run_silent {s : State} {a : Input} (silent : Silent step s a) (later : List Input) :
    run step s (a :: later) = run step s later := by
  simp [run, show step s a = (s, none) from silent]

theorem Quiet.agrees {s : State} {inputs : List Input} (quiet : Quiet step keep s inputs) :
    Agrees step keep s inputs := by
  intro early before
  induction early generalizing s inputs with
  | nil => rfl
  | cons a early ih =>
    obtain ⟨later, rfl⟩ := before
    by_cases kept : keep a = true
    · rw [List.cons_append, Quiet, if_pos kept] at quiet
      rw [List.filter_cons_of_pos kept, run, run, ih quiet (List.prefix_append _ _)]
    · rw [List.cons_append, Quiet, if_neg kept] at quiet
      rw [List.filter_cons_of_neg kept, run_silent quiet.1,
        ih quiet.2 (List.prefix_append _ _)]

theorem Agrees.silent {s : State} {a : Input} {later : List Input}
    (agrees : Agrees step keep s (a :: later)) (dropped : keep a = false) :
    Silent step s a := by
  have first := agrees [a] (by simp)
  rw [List.filter_cons_of_neg (by simp [dropped]), List.filter_nil] at first
  simp only [run, List.append_nil, Prod.mk.injEq, Option.toList_eq_nil_iff] at first
  exact Prod.ext first.1 first.2

theorem Agrees.quiet {s : State} {inputs : List Input} (agrees : Agrees step keep s inputs) :
    Quiet step keep s inputs := by
  induction inputs generalizing s with
  | nil => trivial
  | cons a later ih =>
    rw [Quiet]
    split
    · rename_i kept
      refine ih fun early before => ?_
      have both := agrees (a :: early) (List.cons_prefix_cons.mpr ⟨rfl, before⟩)
      rw [List.filter_cons_of_pos kept] at both
      simp only [run, Prod.mk.injEq, List.append_cancel_left_eq] at both
      exact Prod.ext both.1 both.2
    · rename_i dropped
      have silent := agrees.silent (Bool.eq_false_iff.mpr dropped)
      refine ⟨silent, ih fun early before => ?_⟩
      have both := agrees (a :: early) (List.cons_prefix_cons.mpr ⟨rfl, before⟩)
      rwa [List.filter_cons_of_neg dropped, run_silent silent] at both

theorem agrees_iff {s : State} {inputs : List Input} :
    Agrees step keep s inputs ↔ Quiet step keep s inputs := ⟨Agrees.quiet, Quiet.agrees⟩

theorem quiet_of_silent (holds : State → Prop)
    (kept : ∀ s a, holds s → keep a = true → holds (step s a).1)
    (silent : ∀ s a, holds s → keep a = false → Silent step s a) {s : State} (now : holds s)
    (inputs : List Input) : Quiet step keep s inputs := by
  induction inputs generalizing s with
  | nil => trivial
  | cons a later ih =>
    rw [Quiet]
    split
    · rename_i own
      exact ih (kept s a now own)
    · rename_i dropped
      exact ⟨silent s a now (Bool.eq_false_iff.mpr dropped), ih now⟩

theorem exists_adjacent {inputs : List Input}
    (mixed : ¬ inputs.Pairwise fun earlier later => keep later = true → keep earlier = true) :
    ∃ early other kept, early ++ [other, kept] <+: inputs ∧ keep other = false ∧
      keep kept = true := by
  induction inputs with
  | nil => exact absurd .nil mixed
  | cons a later ih =>
    by_cases sorted : later.Pairwise fun earlier later => keep later = true → keep earlier = true
    · have behind : ∃ b ∈ later, keep b = true ∧ keep a = false := by
        by_contra none
        refine mixed (List.pairwise_cons.mpr ⟨fun b member own => ?_, sorted⟩)
        by_contra other
        exact none ⟨b, member, own, Bool.eq_false_iff.mpr other⟩
      obtain ⟨b, member, own, other⟩ := behind
      cases later with
      | nil => exact absurd member List.not_mem_nil
      | cons c rest =>
        have next : keep c = true := by
          rcases List.mem_cons.mp member with rfl | member
          · exact own
          · exact (List.pairwise_cons.mp sorted).1 b member own
        exact ⟨[], a, c, ⟨rest, rfl⟩, other, next⟩
    · obtain ⟨early, other, kept, before, facts⟩ := ih sorted
      exact ⟨a :: early, other, kept, List.cons_prefix_cons.mpr ⟨rfl, before⟩, facts⟩

end ComIpc.Semantics.Filtering
