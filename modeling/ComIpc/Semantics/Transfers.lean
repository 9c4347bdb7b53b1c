import Mathlib.Order.Basic

/-! Loops of partial transfers.

A call moves as much as it likes of what it is asked for and says how much; nothing or a
negative number stands for a failure or the end. Before every call a flag is tested that
somebody else may clear at any moment.
-/

set_option autoImplicit false

namespace ComIpc.Semantics

/-- What a loop meets: what each test of the flag reads, and how much each call is ready to
move. -/
structure Transfers where
  running : Nat → Bool
  answer : Nat → Int

namespace Transfers

variable (env : Transfers)

def amount (round asked : Nat) : Int := min (env.answer round) asked

/-- Whether the loop returns true, and how many units it has moved. -/
def loop (size round total : Nat) : Bool × Nat :=
  if _more : total < size ∧ env.running round = true then
    if _failed : env.amount round (size - total) ≤ 0 then (false, total)
    else loop size (round + 1) (total + (env.amount round (size - total)).toNat)
  else (true, total)
  termination_by size - total
  decreasing_by
    omega

section
variable {size round total : Nat}

theorem loop_failed (more : total < size ∧ env.running round = true)
    (failed : env.amount round (size - total) ≤ 0) :
    env.loop size round total = (false, total) := by
  rw [loop, dif_pos more, dif_pos failed]

theorem loop_more (more : total < size ∧ env.running round = true)
    (some_ : ¬ env.amount round (size - total) ≤ 0) :
    env.loop size round total =
      env.loop size (round + 1) (total + (env.amount round (size - total)).toNat) := by
  rw [loop, dif_pos more, dif_neg some_]

theorem loop_done (done : ¬ (total < size ∧ env.running round = true)) :
    env.loop size round total = (true, total) := by
  rw [loop, dif_neg done]

end

def moved : Nat → Nat
  | 0 => 0
  | round + 1 => moved round + (env.answer round).toNat

/-- Whenever calls have moved something, but not all, the flag is still set. -/
def Undisturbed (size : Nat) : Prop :=
  ∀ round, (∀ earlier < round, 0 < env.answer earlier) → env.moved round < size →
    env.running round = true

theorem moved_mono {first last : Nat} (order : first ≤ last) :
    env.moved first ≤ env.moved last := by
  induction order with
  | refl => exact Nat.le_refl _
  | step _ ih => exact Nat.le_add_right_of_le ih

theorem loop_bounds (round : Nat) {size total : Nat} (inside : total ≤ size) :
    total ≤ (env.loop size round total).2 ∧ (env.loop size round total).2 ≤ size ∧
      ((env.loop size round total).1 = false → (env.loop size round total).2 < size) := by
  induction round, total using loop.induct env size with
  | case1 round total more failed =>
    rw [env.loop_failed more failed]
    exact ⟨Nat.le_refl _, inside, fun _ => more.1⟩
  | case2 round total more failed ih =>
    rw [env.loop_more more failed]
    have moved : total + (env.amount round (size - total)).toNat ≤ size := by
      unfold amount
      omega
    have later := ih moved
    exact ⟨by omega, later.2⟩
  | case3 round total more =>
    rw [env.loop_done more]
    exact ⟨Nat.le_refl _, inside, nofun⟩

theorem loop_partial_iff {size round total : Nat} (reached : total = min (env.moved round) size)
    (positive : ∀ earlier < round, 0 < env.answer earlier) :
    (env.loop size round total).1 = true ∧ (env.loop size round total).2 < size ↔
      ∃ stop, round ≤ stop ∧ (∀ earlier < stop, 0 < env.answer earlier) ∧
        env.moved stop < size ∧ env.running stop = false := by
  induction round, total using loop.induct env size with
  | case1 round total more failed =>
    rw [env.loop_failed more failed]
    refine iff_of_false (fun both => nomatch both.1) ?_
    rintro ⟨stop, later, answered, missing, cleared⟩
    -- the flag is set here, so the stop would come after the call that failed
    have beyond : round < stop := by
      refine Nat.lt_of_le_of_ne later ?_
      rintro rfl
      exact Bool.noConfusion (cleared.symm.trans more.2)
    have answer := answered round beyond
    unfold amount at failed
    omega
  | case2 round total more failed ih =>
    rw [env.loop_more more failed]
    have answer : 0 < env.answer round := by
      unfold amount at failed
      omega
    have step : env.moved (round + 1) = env.moved round + (env.answer round).toNat := rfl
    rw [ih]
    · constructor
      · rintro ⟨stop, later, rest⟩
        exact ⟨stop, Nat.le_of_succ_le later, rest⟩
      · rintro ⟨stop, later, answered, missing, cleared⟩
        refine ⟨stop, Nat.succ_le_of_lt (Nat.lt_of_le_of_ne later ?_), answered, missing, cleared⟩
        rintro rfl
        exact Bool.noConfusion (cleared.symm.trans more.2)
    · unfold amount
      omega
    · intro earlier before
      rcases Nat.lt_succ_iff_lt_or_eq.mp before with old | rfl
      · exact positive earlier old
      · exact answer
  | case3 round total more =>
    rw [env.loop_done more]
    by_cases missing : total < size
    · have cleared : env.running round = false := by simpa [missing] using more
      exact iff_of_true ⟨rfl, missing⟩
        ⟨round, Nat.le_refl _, positive, by omega, cleared⟩
    · refine iff_of_false (fun both => missing both.2) ?_
      rintro ⟨stop, later, _, short, _⟩
      have grown := env.moved_mono later
      omega

/-- The loop says true exactly when it has moved everything, if and only if nobody clears the flag
while something is missing. -/
theorem loop_whole_iff (size : Nat) :
    ((env.loop size 0 0).1 = true ↔ (env.loop size 0 0).2 = size) ↔ env.Undisturbed size := by
  obtain ⟨_, inside, failed⟩ := env.loop_bounds 0 (Nat.zero_le size)
  have reached : 0 = min (env.moved 0) size := (Nat.zero_min size).symm
  have stops := env.loop_partial_iff reached fun _ early => absurd early (Nat.not_lt_zero _)
  constructor
  · intro whole round positive missing
    by_contra cleared
    have early := stops.mpr ⟨round, Nat.zero_le _, positive, missing, by simpa using cleared⟩
    exact Nat.ne_of_lt early.2 (whole.mp early.1)
  · intro undisturbed
    constructor
    · intro done
      by_contra short
      obtain ⟨stop, _, positive, missing, cleared⟩ :=
        stops.mp ⟨done, Nat.lt_of_le_of_ne inside short⟩
      exact Bool.noConfusion (cleared.symm.trans (undisturbed stop positive missing))
    · intro all
      by_contra refused
      exact Nat.ne_of_lt (failed (by simpa using refused)) all

theorem loop_cleared (cleared : ∀ round, env.running round = false) (size round total : Nat) :
    env.loop size round total = (true, total) := by
  apply loop_done
  rw [cleared]
  exact fun more => Bool.noConfusion more.2

theorem loop_unstopped (running : ∀ round, env.running round = true)
    (positive : ∀ round, 0 < env.answer round) (round : Nat) {size total : Nat}
    (inside : total ≤ size) : env.loop size round total = (true, size) := by
  induction round, total using loop.induct env size with
  | case1 round total more failed =>
    have answer := positive round
    unfold amount at failed
    omega
  | case2 round total more some_ ih =>
    rw [env.loop_more more some_]
    apply ih
    unfold amount
    omega
  | case3 round total more =>
    rw [running, and_iff_left rfl] at more
    have done : ¬ (total < size ∧ env.running round = true) := fun both => more both.1
    rw [env.loop_done done, Nat.le_antisymm inside (Nat.le_of_not_lt more)]

/-- Nobody clears the flag, and the calls move a given number of units, however they split them,
and then no more. -/
structure Serves (length : Nat) : Prop where
  running : ∀ round, env.running round = true
  going : ∀ round, env.moved round < length → 0 < env.answer round
  bound : ∀ round, env.moved round ≤ length

theorem loop_serves {length : Nat} (serves : env.Serves length) {size round total : Nat}
    (reached : total = min (env.moved round) size) :
    env.loop size round total = (decide (size ≤ length), min size length) := by
  induction round, total using loop.induct env size with
  | case1 round total more failed =>
    have ended : ¬ env.moved round < length := by
      intro going
      have answer := serves.going round going
      unfold amount at failed
      omega
    have bound := serves.bound round
    have short : ¬ size ≤ length := by omega
    rw [env.loop_failed more failed, decide_eq_false short]
    exact Prod.ext rfl (by show total = _; omega)
  | case2 round total more some_ ih =>
    have step : env.moved (round + 1) = env.moved round + (env.answer round).toNat := rfl
    rw [env.loop_more more some_]
    apply ih
    unfold amount
    omega
  | case3 round total more =>
    have whole : total = size := by
      have running := serves.running round
      simp only [running, and_true] at more
      omega
    have bound := serves.bound round
    have enough : size ≤ length := by omega
    rw [env.loop_done more, decide_eq_true enough, whole, Nat.min_eq_left enough]

end Transfers

end ComIpc.Semantics
