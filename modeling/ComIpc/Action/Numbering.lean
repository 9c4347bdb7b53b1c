import ComIpc.Action.Step

/-! How clients number their goals. -/

set_option autoImplicit false

namespace ComIpc.Action

open Semantics

theorem toInt_succ {n : Int32} (counted : n ≠ Int32.maxValue) :
    (n + 1).toInt = n.toInt + 1 := by
  have below : n.toInt ≠ Int32.maxValue.toInt := fun same => counted (Int32.toInt_inj.mp same)
  have upper : n.toInt < 2 ^ 31 := n.toInt_lt
  have lower : -2 ^ 31 ≤ n.toInt := n.le_toInt
  have last : Int32.maxValue.toInt = 2 ^ 31 - 1 := rfl
  rw [Int32.toInt_add, show Int32.toInt 1 = 1 from rfl]
  exact Int.bmod_eq_of_le (by omega) (by omega)

section
variable {C : Type}

def State.nextGoalId (s : State C) (c : C) : Option Int32 :=
  (s.clients c).map Client.nextGoalId

def Numbered (s : State C) (c : C) (goalId : Int32) : Prop :=
  ∃ n ∈ s.nextGoalId c, 0 ≤ goalId.toInt ∧ goalId.toInt < n.toInt

inductive Counts : Option Int32 → Option Int32 → Prop where
  | same (n : Option Int32) : Counts n n
  | joined : Counts none (some 0)
  | counted {n : Int32} : n ≠ Int32.maxValue → Counts (some n) (some (n + 1))

instance (s : State C) (c : C) (goalId : Int32) : Decidable (Numbered s c goalId) :=
  inferInstanceAs (Decidable (∃ n ∈ s.nextGoalId c, _))

variable [DecidableEq C]

theorem putClient_counts {s : State C} {c : C} {client : Client}
    (counts : Counts (s.nextGoalId c) (some client.nextGoalId)) (c' : C) :
    Counts (s.nextGoalId c') ((s.putClient c client).nextGoalId c') := by
  by_cases self : c' = c
  · subst self
    simpa [State.nextGoalId, State.putClient] using counts
  · simpa [State.nextGoalId, State.putClient, self] using Counts.same _

theorem Step.counts {s t : State C} {e : Event C} (step : Step s e t) (c : C) :
    Counts (s.nextGoalId c) (t.nextGoalId c) := by
  cases step with
  | connected c' pid absent =>
    refine putClient_counts (s := { s with bus := _, cancel := _ }) ?_ c
    simpa [State.nextGoalId, absent, Client.init] using Counts.joined
  | refused c' _ _ _ found _ counted =>
    refine putClient_counts ?_ c
    simpa [State.nextGoalId, found] using Counts.counted counted
  | sent c' k timestamp goal found _ counted =>
    refine putClient_counts (s := { s with bus := _, purposes := _ }) ?_ c
    simpa [State.nextGoalId, found] using Counts.counted counted
  | sendReturned c' found =>
    refine putClient_counts ?_ c
    simpa [State.nextGoalId, found] using Counts.same _
  | @stored c' outlet residue client _ r found =>
    refine putClient_counts (s := { s with bus := _ }) ?_ c
    obtain ⟨map, stored⟩ := client.store_eq outlet residue r.header r.payload r.source
    simpa [State.nextGoalId, found, stored] using Counts.same _
  | got c' outlet goalId size found got =>
    refine putClient_counts ?_ c
    obtain ⟨_, _, _, _, rfl⟩ := Client.get_eq got
    simpa [State.nextGoalId, found] using Counts.same _
  | _ => exact .same _

theorem Step.goals {s t : State C} {e : Event C} (step : Step s e t) {k : Nat} {c : C}
    {goalId : Int32} {timestamp : Int64} {goal : Payload}
    (meant : t.purposes k = some (.goal c goalId timestamp goal)) :
    s.purposes k = some (.goal c goalId timestamp goal) ∨
      e = .sendGoal c k timestamp goal false ∧ s.nextGoalId c = some goalId ∧
      goalId ≠ Int32.maxValue ∧ t.nextGoalId c = some (goalId + 1) := by
  cases step with
  | published k' outlet x status timestamp' report =>
    by_cases self : k = k'
    · simp [self] at meant
    · exact .inl (by simpa [self] using meant)
  | @sent c' k' timestamp' goal' client _ found _ safe =>
    by_cases self : k = k'
    · subst self
      simp only [State.putClient, Function.update_self, Option.some.injEq,
        Purpose.goal.injEq] at meant
      obtain ⟨rfl, rfl, rfl, rfl⟩ := meant
      exact .inr ⟨rfl, by simp [State.nextGoalId, found], safe,
        by simp [State.nextGoalId, State.putClient]⟩
    · exact .inl (by simpa [State.putClient, self] using meant)
  | _ => exact .inl meant

theorem Numbered.kept {s t : State C} {e : Event C} (step : Step s e t) {c : C}
    {goalId : Int32} (numbered : Numbered s c goalId) : Numbered t c goalId := by
  obtain ⟨n, known, natural, below⟩ := numbered
  have counts := step.counts c
  generalize s.nextGoalId c = before at known counts
  cases Option.mem_def.mp known
  generalize later : t.nextGoalId c = after at counts
  cases counts with
  | same => exact ⟨n, later, natural, below⟩
  | counted safe => exact ⟨n + 1, later, natural, by rw [toInt_succ safe]; omega⟩

structure Counted (s : State C) : Prop where
  natural : ∀ c, ∀ n ∈ s.nextGoalId c, 0 ≤ n.toInt
  goals : ∀ k c goalId timestamp goal,
    s.purposes k = some (.goal c goalId timestamp goal) → Numbered s c goalId
  unique : ∀ k k' c goalId timestamp timestamp' goal goal',
    s.purposes k = some (.goal c goalId timestamp goal) →
    s.purposes k' = some (.goal c goalId timestamp' goal') → k = k'

theorem Counted.step {s t : State C} {e : Event C} (counted : Counted s) (step : Step s e t) :
    Counted t where
  natural := by
    intro c n later
    have counts := step.counts c
    have natural := counted.natural c
    generalize s.nextGoalId c = before at natural counts
    rw [Option.mem_def.mp later] at counts
    cases counts with
    | same => exact natural n rfl
    | joined => exact Int.le_refl 0
    | @counted m safe =>
      have := natural m rfl
      rw [toInt_succ safe]
      omega
  goals := by
    intro k c goalId timestamp goal meant
    rcases step.goals meant with old | ⟨_, before, safe, after⟩
    · exact (counted.goals k c goalId timestamp goal old).kept step
    · refine ⟨goalId + 1, after, counted.natural c goalId before, ?_⟩
      rw [toInt_succ safe]
      omega
  unique := by
    -- a number that is still to be given out belongs to no goal yet
    have fresh : ∀ k c goalId timestamp goal, s.nextGoalId c = some goalId →
        s.purposes k ≠ some (.goal c goalId timestamp goal) := by
      intro k c goalId timestamp goal next old
      obtain ⟨n, known, _, below⟩ := counted.goals k c goalId timestamp goal old
      obtain rfl := Option.some.inj (next.symm.trans known)
      exact Int.lt_irrefl _ below
    intro k k' c goalId timestamp timestamp' goal goal' meant meant'
    rcases step.goals meant with old | ⟨rfl, next, _⟩
    · rcases step.goals meant' with old' | ⟨_, next, _⟩
      · exact counted.unique k k' c goalId timestamp timestamp' goal goal' old old'
      · exact absurd old (fresh k c goalId timestamp goal next)
    · rcases step.goals meant' with old' | ⟨same, _⟩
      · exact absurd old' (fresh k' c goalId timestamp' goal' next)
      · exact (Event.sendGoal.inj same).2.1

theorem reachable_counted {s : State C} (reach : (machine C).Reachable s) : Counted s := by
  refine reach.invariant Counted ?_ fun s e t counted _ taken => counted.step (next_step taken)
  rintro s rfl
  constructor <;> simp [State.init, State.nextGoalId]

end

end ComIpc.Action
