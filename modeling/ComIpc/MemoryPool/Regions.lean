import ComIpc.MemoryPool
import ComIpc.Semantics.BumpRing
import ComIpc.Semantics.Machine

/-! The regions that a sequence of allocations hands out.

The calls come from any processes; each is one step. What the processes write into
their blocks between the calls does not reach the cursor.
-/

set_option autoImplicit false

namespace ComIpc.MemoryPool

open Semantics

inductive Event where
  | allocate (size : Nat)
  | store (offset : Nat) (bytes : Bytes)

def next (pool : MemoryPool) : Event → Option MemoryPool
  | .allocate size =>
    match pool.allocate size with
    | .ok (after, _) => some after
    -- the test comes before the lock, so a call that throws leaves everything as it was
    | .error _ => some pool
  | .store offset bytes => some { pool with data := pool.data.store offset bytes }

def machine : Machine MemoryPool Event where
  initial := fun pool => pool = .init
  next := next

def allocateAll (pool : MemoryPool) : List Nat → Except String (List UInt32)
  | [] => .ok []
  | size :: rest => do
    let (pool, offset) ← pool.allocate size
    let offsets ← pool.allocateAll rest
    .ok (offset :: offsets)

/-- `(size + 7) & ~7` of a size that is accepted. -/
def rounded (size : Nat) : Nat := (size + 7) / 8 * 8

theorem le_rounded (size : Nat) : size ≤ rounded size := by
  unfold rounded
  omega

theorem allocate_place {pool after : MemoryPool} {size : Nat} {offset : UInt32}
    (bounded : pool.Bounded) (done : pool.allocate size = .ok (after, offset)) :
    size ≤ poolSize ∧
    offset.toNat = BumpRing.place poolSize pool.headOffset.toNat (rounded size) ∧
    after.headOffset.toNat = offset.toNat + rounded size := by
  obtain ⟨fits, placed, moved, _⟩ := allocate_ok bounded done
  refine ⟨fits, ?_, moved⟩
  rw [placed, BumpRing.place, apply_ite UInt32.toNat]
  rfl

theorem allocate_bounded {pool after : MemoryPool} {size : Nat} {offset : UInt32}
    (bounded : pool.Bounded) (done : pool.allocate size = .ok (after, offset)) :
    after.Bounded :=
  (allocate_fits bounded (by rw [done]; rfl)).2.1

theorem reachable_bounded {pool : MemoryPool} (reach : machine.Reachable pool) :
    pool.Bounded := by
  refine reach.invariant Bounded ?_ ?_
  · rintro pool rfl
    exact Nat.zero_le poolSize
  · intro pool e after bounded _ taken
    cases e with
    | allocate size =>
      simp only [machine, next] at taken
      split at taken
      · rename_i done
        exact Option.some.inj taken ▸ allocate_bounded bounded done
      · exact Option.some.inj taken ▸ bounded
    | store offset bytes => exact Option.some.inj taken ▸ bounded

theorem allocateAll_places {pool : MemoryPool} {sizes : List Nat} {offsets : List UInt32}
    (bounded : pool.Bounded) (done : pool.allocateAll sizes = .ok offsets) :
    offsets.map UInt32.toNat =
      BumpRing.places poolSize pool.headOffset.toNat (sizes.map rounded) := by
  induction sizes generalizing pool offsets with
  | nil =>
    obtain rfl := Except.ok.inj done
    rfl
  | cons size rest ih =>
    simp only [allocateAll] at done
    cases first : pool.allocate size with
    | error what =>
      rw [first] at done
      contradiction
    | ok result =>
      obtain ⟨after, offset⟩ := result
      rw [first] at done
      cases others : after.allocateAll rest with
      | error what =>
        simp only [bind, Except.bind, others] at done
        contradiction
      | ok later =>
        simp only [bind, Except.bind, others, Except.ok.injEq] at done
        obtain rfl := done
        obtain ⟨_, placed, cursor⟩ := allocate_place bounded first
        have tail := ih (allocate_bounded bounded first) others
        rw [List.map_cons, List.map_cons, BumpRing.places, tail, ← placed, cursor]

def roundedSizes (sizes : List Nat) (i j : Nat) : List Nat :=
  ((sizes.drop i).take (j - i + 1)).map rounded

/-- Two regions of a sequence of calls do not overlap while the blocks from the first to the
second, and the largest of those behind the first once more, fit the pool. -/
theorem regions_apart {pool : MemoryPool} (reach : machine.Reachable pool) {sizes : List Nat}
    {offsets : List UInt32} (accepted : pool.allocateAll sizes = .ok offsets) {i j : Nat}
    (before : i < j) {size size' : Nat} {offset offset' : UInt32}
    (first : sizes[i]? = some size ∧ offsets[i]? = some offset)
    (second : sizes[j]? = some size' ∧ offsets[j]? = some offset')
    (room : (roundedSizes sizes i j).sum + BumpRing.largest (roundedSizes sizes (i + 1) j) ≤
      poolSize) :
    ¬ ByteMemory.Overlap offset.toNat size offset'.toNat size' := by
  have placed := allocateAll_places (reachable_bounded reach) accepted
  have here : ∀ {n : Nat} {o : UInt32}, offsets[n]? = some o →
      (BumpRing.places poolSize pool.headOffset.toNat (sizes.map rounded))[n]? =
        some o.toNat := by
    intro n o found
    rw [← placed, List.getElem?_map, found, Option.map_some]
  have own : ∀ {n s : Nat}, sizes[n]? = some s → (sizes.map rounded)[n]? = some (rounded s) := by
    intro n s found
    rw [List.getElem?_map, found, Option.map_some]
  have distance : j - (i + 1) + 1 = j - i := by omega
  rw [roundedSizes, roundedSizes, distance, List.map_take, List.map_drop, List.map_take,
    List.map_drop] at room
  have apart := BumpRing.places_apart before (here first.2) (own first.1) (here second.2)
    (own second.1) room
  have small := le_rounded size
  have small' := le_rounded size'
  unfold ByteMemory.Overlap
  omega

theorem regions_apart_wrapped : ¬ ByteMemory.Overlap 62914560 31457280 0 20971520 :=
  regions_apart (.start rfl)
    (show init.allocateAll [62914560, 31457280, 20971520] = .ok [0, 62914560, 0] by
      decide +kernel)
    (i := 1) (j := 2) (by decide) ⟨rfl, rfl⟩ ⟨rfl, rfl⟩ (by decide)

end ComIpc.MemoryPool
