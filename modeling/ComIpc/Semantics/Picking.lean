import Mathlib.Data.List.FinRange
import Mathlib.Data.List.Sublists

/-! What loops pick out of lists and arrays.

An array is read off up to a count, an entry is added behind the last, rising numbers pick
some entries, and a filter by a key that occurs once finds one.
-/

set_option autoImplicit false

namespace ComIpc.Semantics

theorem filterMap_below {m : Nat} {β : Type} (f : Fin m → β) (count : Nat) :
    ((List.finRange m).filterMap fun i => if i.val < count then some (f i) else none) =
      ((List.finRange m).take count).map f := by
  have below : ∀ i ∈ (List.finRange m).take count,
      (if i.val < count then some (f i) else none) = some (f i) := by
    intro i member
    obtain ⟨k, bound, rfl⟩ := List.mem_iff_getElem.mp member
    rw [List.length_take] at bound
    rw [List.getElem_take, List.getElem_finRange, if_pos]
    exact Nat.lt_of_lt_of_le bound (Nat.min_le_left _ _)
  have above : ∀ i ∈ (List.finRange m).drop count,
      (if i.val < count then some (f i) else none) = none := by
    intro i member
    obtain ⟨k, bound, rfl⟩ := List.mem_iff_getElem.mp member
    rw [List.getElem_drop, List.getElem_finRange, if_neg]
    simp
  conv_lhs => rw [← List.take_append_drop count (List.finRange m)]
  rw [List.filterMap_append, List.filterMap_congr below, List.filterMap_congr above]
  simp

theorem filterMap_finRange_push {m : Nat} {β : Type} {f g : Fin m → Option β} (idx : Fin m) {b : β}
    (below : ∀ i, i.val < idx.val → g i = f i) (absent : f idx = none) (here : g idx = some b)
    (above : ∀ i, idx.val < i.val → f i = none ∧ g i = none) :
    (List.finRange m).filterMap g = (List.finRange m).filterMap f ++ [b] := by
  have bound : idx.val < (List.finRange m).length := by simp
  have split : List.finRange m = (List.finRange m).take idx.val ++
      idx :: (List.finRange m).drop (idx.val + 1) := by
    conv_lhs => rw [← List.take_append_drop idx.val (List.finRange m),
      List.drop_eq_getElem_cons bound, List.getElem_finRange]
    rfl
  have front : ((List.finRange m).take idx.val).filterMap g =
      ((List.finRange m).take idx.val).filterMap f := by
    apply List.filterMap_congr
    intro i member
    obtain ⟨k, bound, rfl⟩ := List.mem_iff_getElem.mp member
    rw [List.length_take] at bound
    rw [List.getElem_take, List.getElem_finRange]
    exact below _ (Nat.lt_of_lt_of_le bound (Nat.min_le_left _ _))
  have back : ∀ i ∈ (List.finRange m).drop (idx.val + 1), f i = none ∧ g i = none := by
    intro i member
    obtain ⟨k, bound, rfl⟩ := List.mem_iff_getElem.mp member
    rw [List.getElem_drop, List.getElem_finRange]
    exact above _ (by simp; omega)
  have nothing : ((List.finRange m).drop (idx.val + 1)).filterMap g = [] :=
    List.filterMap_eq_nil_iff.mpr fun i member => (back i member).2
  have neither : ((List.finRange m).drop (idx.val + 1)).filterMap f = [] :=
    List.filterMap_eq_nil_iff.mpr fun i member => (back i member).1
  rw [split, List.filterMap_append, List.filterMap_append, List.filterMap_cons_some here,
    List.filterMap_cons_none absent, front, nothing, neither, List.append_nil]

theorem filter_eq_singleton {α β : Type} {f : α → β} {p : α → Bool} {x : α} {l : List α}
    (nodup : (l.map f).Nodup) (member : x ∈ l) (here : p x = true)
    (only : ∀ y ∈ l, p y = true → f y = f x) : l.filter p = [x] := by
  induction l with
  | nil => contradiction
  | cons a l ih =>
    obtain ⟨fresh, nodup⟩ := List.nodup_cons.mp nodup
    have rest : ∀ y ∈ l, p y = true → f y = f x := fun y later =>
      only y (List.mem_cons_of_mem _ later)
    rcases List.mem_cons.mp member with rfl | later
    · have others : l.filter p = [] := by
        refine List.filter_eq_nil_iff.mpr fun y later passes => fresh ?_
        exact rest y later passes ▸ List.mem_map_of_mem later
      rw [List.filter_cons_of_pos here, others]
    · have differs : ¬ p a = true := fun passes =>
        fresh (only a List.mem_cons_self passes ▸ List.mem_map_of_mem later)
      rw [List.filter_cons_of_neg differs, ih nodup later rest]

/-- What rising numbers, counting from one, pick out of a list lies in it in this order. -/
theorem picked_sublist {α : Type} {l picked : List α} {numbers : List Nat} {start : Nat}
    (rising : numbers.Pairwise (· < ·)) (ahead : ∀ n ∈ numbers, start < n)
    (found : picked.map some = numbers.map fun n => l[n - 1]?) :
    picked.Sublist (l.drop start) := by
  induction numbers generalizing picked start with
  | nil =>
    rw [List.map_eq_nil_iff.mp found]
    exact List.nil_sublist _
  | cons n later ih =>
    obtain ⟨first, rising⟩ := List.pairwise_cons.mp rising
    cases picked with
    | nil => contradiction
    | cons a rest =>
      rw [List.map_cons, List.map_cons, List.cons.injEq] at found
      have after := ahead n List.mem_cons_self
      obtain ⟨bound, here⟩ := List.getElem?_eq_some_iff.mp found.1.symm
      have tail := ih rising first found.2
      have behind : l.drop (n - 1) = a :: l.drop n := by
        rw [List.drop_eq_getElem_cons bound, here, Nat.sub_add_cancel (by omega)]
      have whole := behind ▸ tail.cons_cons a
      have earlier : (l.drop (n - 1)).Sublist (l.drop start) :=
        List.drop_sublist_drop_left l (by omega)
      exact whole.trans earlier

end ComIpc.Semantics
