import ComIpc.Semantics.BumpRing
import Mathlib.Algebra.Order.BigOperators.Group.List
import Mathlib.Algebra.Order.Group.Nat

/-! Blocks of a bump ring that no later block has come round to.

Nothing is given back, so a block stays its holder's for as long as the blocks from it
on, and the largest behind it once more, fit the ring. Two blocks that are both still
inside that lap do not overlap, whichever was handed out first.
-/

set_option autoImplicit false

namespace ComIpc.Semantics.BumpRing

variable {capacity : Nat}

section
variable (capacity : Nat)

/-- The ring has not come round to a block yet. -/
def Unlapped (sizes : List Nat) (block : Nat) : Prop :=
  (sizes.drop block).sum + largest (sizes.drop (block + 1)) ≤ capacity

instance (sizes : List Nat) (block : Nat) : Decidable (Unlapped capacity sizes block) :=
  inferInstanceAs (Decidable (_ ≤ _))

end

theorem largest_append (first second : List Nat) :
    largest (first ++ second) = max (largest first) (largest second) := by
  induction first with
  | nil => simp [largest]
  | cons size rest ih => simp [largest, ih, Nat.max_assoc]

theorem largest_take_le (sizes : List Nat) (n : Nat) : largest (sizes.take n) ≤ largest sizes := by
  have whole := congrArg largest (List.take_append_drop n sizes)
  rw [largest_append] at whole
  omega

theorem Unlapped.before {sizes : List Nat} {block size : Nat}
    (unlapped : Unlapped capacity (sizes ++ [size]) block) : Unlapped capacity sizes block := by
  unfold Unlapped at *
  have sums : (sizes.drop block).sum ≤ ((sizes ++ [size]).drop block).sum := by
    rw [List.drop_append, List.sum_append]
    exact Nat.le_add_right _ _
  have most : largest (sizes.drop (block + 1)) ≤ largest ((sizes ++ [size]).drop (block + 1)) := by
    rw [List.drop_append, largest_append]
    exact Nat.le_max_left _ _
  omega

theorem places_concat (head : Nat) (sizes : List Nat) (size : Nat) :
    places capacity head (sizes ++ [size]) =
      places capacity head sizes ++ [place capacity (cursor capacity head sizes) size] := by
  induction sizes generalizing head with
  | nil => rfl
  | cons first rest ih => simp only [List.cons_append, places, cursor, ih]

theorem cursor_concat (head : Nat) (sizes : List Nat) (size : Nat) :
    cursor capacity head (sizes ++ [size]) =
      place capacity (cursor capacity head sizes) size + size := by
  induction sizes generalizing head with
  | nil => rfl
  | cons first rest ih => simp only [List.cons_append, cursor, ih]

@[simp] theorem length_places (head : Nat) (sizes : List Nat) :
    (places capacity head sizes).length = sizes.length := by
  induction sizes generalizing head with
  | nil => rfl
  | cons first rest ih => simp only [places, List.length_cons, ih]

section
variable (capacity : Nat)

structure BlockAt (sizes : List Nat) (block place size : Nat) : Prop where
  place : (places capacity 0 sizes)[block]? = some place
  size : sizes[block]? = some size

end

theorem BlockAt.concat {sizes : List Nat} {block place size : Nat}
    (here : BlockAt capacity sizes block place size) (next : Nat) :
    BlockAt capacity (sizes ++ [next]) block place size := by
  have bound := (List.getElem?_eq_some_iff.mp here.size).1
  constructor
  · rw [places_concat, List.getElem?_append_left (by rwa [length_places]), here.place]
  · rw [List.getElem?_append_left bound, here.size]

theorem BlockAt.last (sizes : List Nat) (size : Nat) :
    BlockAt capacity (sizes ++ [size]) sizes.length
      (BumpRing.place capacity (cursor capacity 0 sizes) size) size := by
  constructor
  · rw [places_concat, List.getElem?_append_right (by simp), length_places, Nat.sub_self]
    rfl
  · simp

theorem BlockAt.bound {sizes : List Nat} {block place size : Nat}
    (here : BlockAt capacity sizes block place size) : block < sizes.length :=
  (List.getElem?_eq_some_iff.mp here.size).1

theorem Unlapped.later_apart {sizes : List Nat} {i j p q a b : Nat}
    (unlapped : Unlapped capacity sizes i) (first : BlockAt capacity sizes i p a)
    (second : BlockAt capacity sizes j q b) (before : i < j) : q + b ≤ p ∨ p + a ≤ q := by
  refine places_apart before first.place first.size second.place second.size ?_
  have sums : ((sizes.drop i).take (j - i + 1)).sum ≤ (sizes.drop i).sum :=
    (List.take_sublist _ _).sum_le_sum fun _ _ => Nat.zero_le _
  have most := largest_take_le (sizes.drop (i + 1)) (j - i)
  unfold Unlapped at unlapped
  omega

theorem Unlapped.apart {sizes : List Nat} {i j p q a b : Nat} (other : i ≠ j)
    (unlapped : Unlapped capacity sizes i) (unlapped' : Unlapped capacity sizes j)
    (first : BlockAt capacity sizes i p a) (second : BlockAt capacity sizes j q b) :
    q + b ≤ p ∨ p + a ≤ q := by
  rcases Nat.lt_or_gt_of_ne other with before | after
  · exact unlapped.later_apart first second before
  · exact (unlapped'.later_apart second first after).symm

end ComIpc.Semantics.BumpRing
