import ComIpc.Semantics.ByteMemory
import ComIpc.Types

/-! The shared payload pool: a ring whose blocks are handed out again after a wrap,
with no record of who still needs them.

The allocation is one tenure of the pool mutex, so the mutex is left out.
-/

set_option autoImplicit false

namespace ComIpc

open Semantics

structure MemoryPool where
  headOffset : UInt32
  data : ByteMemory

namespace MemoryPool

def init : MemoryPool := ⟨0, fun _ => 0⟩

/-- `(size + 7) & ~7` on `size_t`. -/
def align (size : Nat) : UInt64 := (UInt64.ofNat size + 7) &&& ~~~7

/-- `MemoryPool::allocate`; the sum in the test is 64 bits wide, the stored one is narrowed. -/
def allocate (pool : MemoryPool) (size : Nat) : Except String (MemoryPool × UInt32) :=
  if size > poolSize then .error "Requested size exceeds pool capacity!"
  else
    let size := align size
    let offset := pool.headOffset
    -- no block straddles the end: what does not fit the rest starts over at 0
    let offset := if offset.toUInt64 + size > UInt64.ofNat poolSize then 0 else offset
    .ok ({ pool with headOffset := (offset.toUInt64 + size).toUInt32 }, offset)

/-- The check of `getOffset` on a pointer given as a position in the pool. -/
def getOffset (position : Nat) : Except String UInt32 :=
  if position < poolSize then .ok (UInt32.ofNat position)
  else .error "Zero-Copy Publish Error: Pointer is not from MemoryPool!"

theorem mask_bit :
    ∀ i : Fin 64, (~~~7#64).getLsbD i.val = decide (3 ≤ i.val) := by decide

theorem clear_low (x : BitVec 64) : (x &&& ~~~7#64) = (x >>> 3) <<< 3 := by
  apply BitVec.eq_of_getLsbD_eq
  intro i bound
  rw [BitVec.getLsbD_and, mask_bit ⟨i, bound⟩, BitVec.getLsbD_shiftLeft,
    BitVec.getLsbD_ushiftRight]
  by_cases low : i < 3
  · simp [low]
  · simp [low, bound, show 3 + (i - 3) = i by omega, Nat.le_of_not_lt low]

theorem toNat_align {size : Nat} (fits : size ≤ poolSize) :
    (align size).toNat = (size + 7) / 8 * 8 := by
  have small : poolSize + 7 < 2 ^ 64 := by decide
  rw [align, ← UInt64.toNat_toBitVec, UInt64.toBitVec_and]
  show (BitVec.ofNat 64 size + 7#64 &&& ~~~7#64).toNat = _
  rw [clear_low, BitVec.toNat_shiftLeft, BitVec.toNat_ushiftRight, Nat.shiftLeft_eq,
    Nat.shiftRight_eq_div_pow]
  simp only [BitVec.toNat_add, BitVec.toNat_ofNat]
  omega

theorem sum_exact {offset : UInt32} {aligned : UInt64} (within : offset.toNat ≤ poolSize)
    (small : aligned.toNat ≤ poolSize) :
    (offset.toUInt64 + aligned).toNat = offset.toNat + aligned.toNat := by
  have whole : poolSize = 104857600 := rfl
  rw [UInt64.toNat_add, UInt32.toNat_toUInt64]
  omega

theorem narrow_exact {offset : UInt32} {aligned : UInt64} (within : offset.toNat ≤ poolSize)
    (small : aligned.toNat ≤ poolSize) :
    (offset.toUInt64 + aligned).toUInt32.toNat = (offset.toUInt64 + aligned).toNat := by
  have whole : poolSize = 104857600 := rfl
  rw [UInt64.toNat_toUInt32, sum_exact within small]
  omega

def Bounded (pool : MemoryPool) : Prop := pool.headOffset.toNat ≤ poolSize

theorem allocate_ok {pool after : MemoryPool} {size : Nat} {offset : UInt32}
    (bounded : pool.Bounded) (done : pool.allocate size = .ok (after, offset)) :
    size ≤ poolSize ∧
    offset = (if poolSize < pool.headOffset.toNat + (size + 7) / 8 * 8 then 0
      else pool.headOffset) ∧
    after.headOffset.toNat = offset.toNat + (size + 7) / 8 * 8 ∧ after.data = pool.data := by
  have whole : poolSize = 104857600 := rfl
  unfold allocate at done
  split at done
  · contradiction
  · rename_i fits
    have fits : size ≤ poolSize := Nat.not_lt.mp fits
    have aligned := toNat_align fits
    have small : (align size).toNat ≤ poolSize := by omega
    obtain ⟨rfl, rfl⟩ := Prod.mk.inj (Except.ok.inj done)
    have test : pool.headOffset.toUInt64 + align size > UInt64.ofNat poolSize ↔
        poolSize < pool.headOffset.toNat + (size + 7) / 8 * 8 := by
      rw [gt_iff_lt, UInt64.lt_iff_toNat_lt, sum_exact bounded small, aligned]
      rfl
    have within : (if pool.headOffset.toUInt64 + align size > UInt64.ofNat poolSize then 0
        else pool.headOffset).toNat ≤ poolSize := by
      split
      · exact Nat.zero_le poolSize
      · exact bounded
    refine ⟨fits, ?_, ?_, rfl⟩
    · simp only [test]
    · rw [narrow_exact within small, sum_exact within small, aligned]

theorem allocate_fits {pool pool' : MemoryPool} {size : Nat} {offset : UInt32}
    (bounded : pool.Bounded) (done : (pool.allocate size).toOption = some (pool', offset)) :
    offset.toNat + size ≤ poolSize ∧ pool'.Bounded ∧ pool'.data = pool.data := by
  have whole : poolSize = 104857600 := rfl
  cases tried : pool.allocate size with
  | error what =>
    rw [tried] at done
    contradiction
  | ok result =>
    rw [tried] at done
    obtain rfl := Option.some.inj done
    obtain ⟨fits, placed, moved, same⟩ := allocate_ok bounded tried
    have room : offset.toNat + (size + 7) / 8 * 8 ≤ poolSize := by
      rw [placed]
      split
      · rw [UInt32.toNat_zero]
        omega
      · omega
    refine ⟨by omega, ?_, same⟩
    rw [Bounded, moved]
    exact room

end MemoryPool

end ComIpc
