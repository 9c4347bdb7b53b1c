import Mathlib.Algebra.GroupWithZero.Nat
import Mathlib.Data.List.Basic

/-! Blocks handed out one after the other from a ring of cells.

A block that does not fit the rest of the ring starts over at 0 and the tail stays
unused. Nothing is ever given back, so a block is safe only for as long as the blocks
behind it have not come round: the tail that a wrap skips is smaller than the block
that did not fit, and so at most the largest of those blocks is wasted.
-/

set_option autoImplicit false

namespace ComIpc.Semantics.BumpRing

def largest : List Nat → Nat
  | [] => 0
  | size :: rest => max size (largest rest)

section
variable (capacity : Nat)

def place (head size : Nat) : Nat := if capacity < head + size then 0 else head

def places (head : Nat) : List Nat → List Nat
  | [] => []
  | size :: rest => place capacity head size :: places (place capacity head size + size) rest

def cursor (head : Nat) : List Nat → Nat
  | [] => head
  | size :: rest => cursor (place capacity head size + size) rest

/-- The cursor behind a block that ends at `stop`, after blocks with the given sum and
largest size: there was no wrap yet, or one whose skipped tail they bound. -/
def Behind (stop head sum most : Nat) : Prop :=
  head = stop + sum ∨ head + capacity < stop + sum + most

end

variable {capacity : Nat}

theorem place_fits {head size : Nat} (fits : size ≤ capacity) :
    place capacity head size + size ≤ capacity := by
  unfold place
  split
  · omega
  · omega

theorem dvd_place {unit head : Nat} (size : Nat) (aligned : unit ∣ head) :
    unit ∣ place capacity head size := by
  unfold place
  split
  · exact Nat.dvd_zero unit
  · exact aligned

theorem drop_places (head : Nat) (sizes : List Nat) (i : Nat) :
    (places capacity head sizes).drop i =
      places capacity (cursor capacity head (sizes.take i)) (sizes.drop i) := by
  induction i generalizing head sizes with
  | zero => rfl
  | succ i ih =>
    cases sizes with
    | nil => rfl
    | cons size rest =>
      rw [places, List.drop_succ_cons, ih, List.take_succ_cons, cursor, List.drop_succ_cons]

theorem Behind.place {start own head sum most size : Nat} (inside : start + own ≤ capacity)
    (behind : Behind capacity (start + own) head sum most)
    (room : own + (sum + size) + max most size ≤ capacity) :
    (BumpRing.place capacity head size + size ≤ start ∨
      start + own ≤ BumpRing.place capacity head size) ∧
    Behind capacity (start + own) (BumpRing.place capacity head size + size) (sum + size)
      (max most size) := by
  unfold BumpRing.place Behind
  rcases behind with straight | wrapped
  · split
    · -- the wrap: what it skips is less than this block
      exact ⟨.inl (by omega), .inr (by omega)⟩
    · exact ⟨.inr (by omega), .inl (by omega)⟩
  · -- the room left in front of the block rules out a second wrap
    have before : head + size < start := by omega
    rw [if_neg (by omega)]
    exact ⟨.inl (by omega), .inr (by omega)⟩

theorem Behind.apart {start own head sum most : Nat} (inside : start + own ≤ capacity)
    (behind : Behind capacity (start + own) head sum most) {later : List Nat} {k p size : Nat}
    (placed : (places capacity head later)[k]? = some p) (sized : later[k]? = some size)
    (room : own + (sum + (later.take (k + 1)).sum) + max most (largest (later.take (k + 1))) ≤
      capacity) :
    p + size ≤ start ∨ start + own ≤ p := by
  induction later generalizing head sum most k with
  | nil => simp [places] at placed
  | cons first rest ih =>
    simp only [List.take_succ_cons, List.sum_cons, largest] at room
    have step : (BumpRing.place capacity head first + first ≤ start ∨
        start + own ≤ BumpRing.place capacity head first) ∧
        Behind capacity (start + own) (BumpRing.place capacity head first + first) (sum + first)
          (max most first) := behind.place inside (by omega)
    cases k with
    | zero =>
      simp only [places, List.getElem?_cons_zero, Option.some.injEq] at placed sized
      exact placed ▸ sized ▸ step.1
    | succ k =>
      rw [places, List.getElem?_cons_succ] at placed
      rw [List.getElem?_cons_succ] at sized
      exact ih step.2 placed sized (by omega)

/-- Two blocks of a sequence do not overlap while the blocks from the first to the second,
and the largest behind the first once more, fit the ring. -/
theorem places_apart {head : Nat} {sizes : List Nat} {i j p q a b : Nat} (before : i < j)
    (first : (places capacity head sizes)[i]? = some p) (own : sizes[i]? = some a)
    (second : (places capacity head sizes)[j]? = some q) (other : sizes[j]? = some b)
    (room : ((sizes.drop i).take (j - i + 1)).sum +
      largest ((sizes.drop (i + 1)).take (j - i)) ≤ capacity) :
    q + b ≤ p ∨ p + a ≤ q := by
  have bound := (List.getElem?_eq_some_iff.mp own).1
  have shape : sizes.drop i = a :: sizes.drop (i + 1) := by
    rw [List.drop_eq_getElem_cons bound, (List.getElem?_eq_some_iff.mp own).2]
  rw [shape, List.take_succ_cons, List.sum_cons] at room
  -- start the sequence at the first of the two blocks
  have start : (places capacity head sizes).drop i =
      places capacity (cursor capacity head (sizes.take i)) (sizes.drop i) :=
    drop_places head sizes i
  rw [shape, places] at start
  have here : BumpRing.place capacity (cursor capacity head (sizes.take i)) a = p := by
    have zero := congrArg (fun blocks => blocks[0]?) start
    simpa [first] using zero.symm
  have later : (places capacity (p + a) (sizes.drop (i + 1)))[j - i - 1]? = some q := by
    have last := congrArg (fun blocks => blocks[j - i]?) start
    rw [show j - i = (j - i - 1) + 1 by omega] at last
    simp only [List.getElem?_drop, List.getElem?_cons_succ, here] at last
    rw [← last, show i + (j - i - 1 + 1) = j by omega, second]
  have inside : p + a ≤ capacity := here ▸ place_fits (by omega)
  have behind : Behind capacity (p + a) (p + a) 0 0 := .inl rfl
  refine behind.apart inside later ?_ ?_
  · rw [List.getElem?_drop, show i + 1 + (j - i - 1) = j by omega, other]
  · rw [show j - i - 1 + 1 = j - i by omega]
    omega

end ComIpc.Semantics.BumpRing
