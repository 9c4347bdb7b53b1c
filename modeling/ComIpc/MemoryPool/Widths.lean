import ComIpc.MemoryPool.Regions

/-! The widths that `allocate` computes in.

The macro and the mask are signed, the size is 64 bits wide and the cursor 32. The cursor is
within the pool and on a boundary of eight bytes before every call, and so the sums are far
from the end of either width.
-/

set_option autoImplicit false

namespace ComIpc.MemoryPool

open Semantics

/-- The macro `POOL_SIZE`, of type `int`. -/
def poolSizeInt : Int32 := 100 * 1024 * 1024

/-- An `int` beside a `size_t`. -/
def toSize (n : Int32) : UInt64 := n.toInt64.toUInt64

/-- What a call computes on its way, every value at its own width. -/
structure Values where
  raised : UInt64
  aligned : UInt64
  tested : UInt64
  offset : UInt32
  stored : UInt64
  headOffset : UInt32

def values (headOffset : UInt32) (size : UInt64) : Values :=
  let raised := size + toSize 7
  let aligned := raised &&& toSize (~~~7)
  let tested := headOffset.toUInt64 + aligned
  let offset := if tested > toSize poolSizeInt then 0 else headOffset
  let stored := offset.toUInt64 + aligned
  ⟨raised, aligned, tested, offset, stored, stored.toUInt32⟩

theorem toSize_poolSize : toSize poolSizeInt = UInt64.ofNat poolSize := by decide

theorem toSize_seven : toSize 7 = 7 := by decide

theorem toSize_mask : toSize (~~~7) = ~~~7 := by decide

theorem allocate_values (pool : MemoryPool) (size : UInt64) :
    pool.allocate size.toNat =
      if size > toSize poolSizeInt then .error "Requested size exceeds pool capacity!"
      else .ok ({ pool with headOffset := (values pool.headOffset size).headOffset },
        (values pool.headOffset size).offset) := by
  have whole : align size.toNat = (size + 7) &&& ~~~7 := by rw [align, UInt64.ofNat_toNat]
  have test : size.toNat > poolSize ↔ size > UInt64.ofNat poolSize := by
    rw [gt_iff_lt, gt_iff_lt, UInt64.lt_iff_toNat_lt]
    rfl
  unfold allocate values
  simp only [toSize_poolSize, toSize_seven, toSize_mask, whole, test]

structure Lossless (headOffset : UInt32) (size : UInt64) (v : Values) : Prop where
  raised : v.raised.toNat = size.toNat + 7
  aligned : v.aligned.toNat = rounded size.toNat
  tested : v.tested.toNat = headOffset.toNat + v.aligned.toNat
  stored : v.stored.toNat = v.offset.toNat + v.aligned.toNat
  headOffset : v.headOffset.toNat = v.stored.toNat

theorem rounded_fits {size : Nat} (fits : size ≤ poolSize) : rounded size ≤ poolSize := by
  have whole : poolSize = 104857600 := rfl
  unfold rounded
  omega

theorem aligned_rounded (size : Nat) : 8 ∣ rounded size := Nat.dvd_mul_left 8 _

theorem values_lossless {headOffset : UInt32} {size : UInt64}
    (cursor : headOffset.toNat ≤ poolSize) (fits : size.toNat ≤ poolSize) :
    Lossless headOffset size (values headOffset size) := by
  have whole : poolSize = 104857600 := rfl
  have aligned : (values headOffset size).aligned.toNat = rounded size.toNat := by
    have rounds := toNat_align fits
    rw [align, UInt64.ofNat_toNat, ← toSize_mask, ← toSize_seven] at rounds
    exact rounds
  have small : (values headOffset size).aligned.toNat ≤ poolSize := aligned ▸ rounded_fits fits
  have offset : (values headOffset size).offset.toNat ≤ poolSize := by
    simp only [values]
    split
    · exact Nat.zero_le poolSize
    · exact cursor
  refine ⟨?_, aligned, sum_exact cursor small, sum_exact offset small, narrow_exact offset small⟩
  simp only [values, toSize_seven]
  rw [UInt64.toNat_add]
  show (size.toNat + 7) % 2 ^ 64 = size.toNat + 7
  omega

/-! ### Sequences of calls -/

structure Call where
  before : UInt32
  size : UInt64
  result : Except String UInt32
  after : UInt32

def calls (pool : MemoryPool) : List UInt64 → List Call
  | [] => []
  | size :: rest =>
    match pool.allocate size.toNat with
    | .error what =>
      ⟨pool.headOffset, size, .error what, pool.headOffset⟩ :: calls pool rest
    | .ok (after, offset) =>
      ⟨pool.headOffset, size, .ok offset, after.headOffset⟩ :: calls after rest

/-- A call throws for a size above the pool's and changes nothing then; else it hands out a block
inside the pool, on a boundary of eight bytes, and leaves the cursor inside and on one. -/
structure Call.Right (call : Call) : Prop where
  throws : (∃ what, call.result = .error what) ↔ poolSize < call.size.toNat
  unchanged : poolSize < call.size.toNat → call.after = call.before
  places : ∀ offset, call.result = .ok offset →
    8 ∣ offset.toNat ∧ offset.toNat + rounded call.size.toNat ≤ poolSize
  leaves : 8 ∣ call.after.toNat ∧ call.after.toNat ≤ poolSize
  lossless : call.size.toNat ≤ poolSize →
    Lossless call.before call.size (values call.before call.size)
  returns : call.size.toNat ≤ poolSize →
    call.result = .ok (values call.before call.size).offset ∧
      call.after = (values call.before call.size).headOffset

structure OnBoundary (pool : MemoryPool) : Prop where
  bounded : pool.Bounded
  aligned : 8 ∣ pool.headOffset.toNat

theorem OnBoundary.allocate {pool after : MemoryPool} {size : Nat} {offset : UInt32}
    (cursor : pool.OnBoundary) (done : pool.allocate size = .ok (after, offset)) :
    after.OnBoundary ∧ 8 ∣ offset.toNat ∧ offset.toNat + rounded size ≤ poolSize := by
  obtain ⟨fits, placed, moved⟩ := allocate_place cursor.bounded done
  have aligned : 8 ∣ offset.toNat := placed ▸ BumpRing.dvd_place (rounded size) cursor.aligned
  have inside : offset.toNat + rounded size ≤ poolSize := by
    rw [placed]
    exact BumpRing.place_fits (rounded_fits fits)
  refine ⟨⟨?_, ?_⟩, aligned, inside⟩
  · rw [Bounded, moved]
    exact inside
  · rw [moved]
    exact Nat.dvd_add aligned (aligned_rounded size)

theorem allocate_throws (pool : MemoryPool) (size : Nat) :
    (∃ what, pool.allocate size = .error what) ↔ poolSize < size := by
  unfold MemoryPool.allocate
  split
  · exact iff_of_true ⟨_, rfl⟩ ‹_›
  · exact iff_of_false nofun ‹_›

theorem OnBoundary.thrown {pool : MemoryPool} (cursor : pool.OnBoundary) {size : UInt64}
    {what : String} (thrown : pool.allocate size.toNat = .error what) :
    Call.Right ⟨pool.headOffset, size, .error what, pool.headOffset⟩ := by
  have large := (allocate_throws pool size.toNat).mp ⟨what, thrown⟩
  refine ⟨iff_of_true ⟨what, rfl⟩ large, fun _ => rfl, nofun, ⟨cursor.aligned, cursor.bounded⟩,
    ?_, ?_⟩
  · exact fun fits => absurd large (Nat.not_lt.mpr fits)
  · exact fun fits => absurd large (Nat.not_lt.mpr fits)

theorem OnBoundary.returned {pool after : MemoryPool} (cursor : pool.OnBoundary) {size : UInt64}
    {offset : UInt32} (done : pool.allocate size.toNat = .ok (after, offset)) :
    Call.Right ⟨pool.headOffset, size, .ok offset, after.headOffset⟩ := by
  obtain ⟨next, aligned, inside⟩ := cursor.allocate done
  have fits := (allocate_place cursor.bounded done).1
  have small : ¬ poolSize < size.toNat := Nat.not_lt.mpr fits
  have computed := (allocate_values pool size).symm.trans done
  have test : ¬ size > toSize poolSizeInt := by
    intro large
    rw [if_pos large] at computed
    contradiction
  rw [if_neg test] at computed
  obtain ⟨rfl, rfl⟩ := Prod.mk.inj (Except.ok.inj computed)
  refine ⟨iff_of_false nofun small, fun large => absurd large small, ?_,
    ⟨next.aligned, next.bounded⟩, fun _ => values_lossless cursor.bounded fits,
    fun _ => ⟨rfl, rfl⟩⟩
  intro offset same
  exact Except.ok.inj same ▸ ⟨aligned, inside⟩

theorem OnBoundary.calls {pool : MemoryPool} (cursor : pool.OnBoundary) (sizes : List UInt64) :
    ∀ call ∈ pool.calls sizes, call.Right := by
  induction sizes generalizing pool with
  | nil => exact nofun
  | cons size rest ih =>
    intro call member
    rw [MemoryPool.calls] at member
    split at member
    · rename_i thrown
      rcases List.mem_cons.mp member with rfl | later
      · exact cursor.thrown thrown
      · exact ih cursor call later
    · rename_i done
      rcases List.mem_cons.mp member with rfl | later
      · exact cursor.returned done
      · exact ih (cursor.allocate done).1 call later

/-- For every sequence of calls with any 64-bit sizes, every one of them is right. -/
theorem calls_right {pool : MemoryPool} (start : pool.headOffset = 0) (sizes : List UInt64) :
    ∀ call ∈ pool.calls sizes, call.Right := by
  have cursor : pool.OnBoundary := by
    refine ⟨?_, ?_⟩
    · rw [Bounded, start]
      exact Nat.zero_le poolSize
    · rw [start]
      exact Nat.dvd_zero 8
  exact cursor.calls sizes

theorem calls_right_wrapped :
    (init.calls [1, 104857585, 18446744073709551615, 9]).map Call.after =
        [8, 104857600, 104857600, 16] ∧
      ∀ call ∈ init.calls [1, 104857585, 18446744073709551615, 9], call.Right :=
  ⟨by decide +kernel, calls_right rfl _⟩

end ComIpc.MemoryPool
