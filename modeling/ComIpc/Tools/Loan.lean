import ComIpc.MemoryPool.Regions
import ComIpc.Semantics.CString
import ComIpc.Semantics.LittleEndian

/-! What the tools share: loaning a block, filling it and publishing it.

The pool is the one of all processes. What the others do to it between two loans of the
tool is a parameter, an arbitrary change that keeps the cursor inside the pool.
-/

set_option autoImplicit false

namespace ComIpc.Tools

open Semantics

/-- `std::string::max_size()`, as libstdc++ has it. -/
abbrev maxStringSize : Nat := 2 ^ 62 - 1

structure StdString where
  chars : Bytes
  fits : chars.length ≤ maxStringSize
  deriving DecidableEq, Repr

def StdString.length (s : StdString) : UInt64 := UInt64.ofNat s.chars.length

theorem StdString.toNat_length (s : StdString) :
    (uint64Of (uint64Bytes s.length)).toNat = s.chars.length :=
  toNat_uint64Of (Nat.lt_of_le_of_lt s.fits (by decide))

abbrev Pool : Type := { pool : MemoryPool // pool.Bounded }

def Pool.init : Pool := ⟨.init, Nat.zero_le poolSize⟩

/-- What a subscriber finds: the size in the header and that many bytes of the pool; `name` is the
string that the publisher was constructed with. -/
structure Publication where
  name : Bytes
  dataSize : UInt32
  payload : Bytes
  deriving DecidableEq, Repr

/-- The topic it goes to: `createOrGetTopic` knows its name by `c_str()` only. -/
def Publication.topic (p : Publication) : CString := ⟨cstr p.name, zero_not_mem_cstr p.name⟩

inductive End where
  | unopened
  | invalidFormat
  /-- The condition of the main loop has become false. -/
  | finished
  /-- The main loop was left by a `break`. -/
  | broken
  | threw (what : String)
  deriving DecidableEq, Repr

def loanRaw (pool : Pool) (size : Nat) : Except String (Pool × UInt32) :=
  match done : pool.val.allocate size with
  | .error what => .error what
  | .ok (after, offset) =>
    .ok (⟨after, (MemoryPool.allocate_fits pool.property (by rw [done]; rfl)).2.1⟩, offset)

def fill (pool : Pool) (offset : UInt32) (bytes : Bytes) : Pool :=
  ⟨{ pool.val with data := pool.val.data.store offset.toNat bytes }, pool.property⟩

def publishLoaned (pool : Pool) (name : Bytes) (offset : UInt32) (size : Nat) :
    Except String Publication :=
  (MemoryPool.getOffset offset.toNat).map fun offset =>
    ⟨name, UInt32.ofNat size, pool.val.data.load offset.toNat (UInt32.ofNat size).toNat⟩

theorem loanRaw_ok (pool : Pool) {size : Nat} (fits : size ≤ poolSize) :
    ∃ after offset, loanRaw pool size = .ok (after, offset) ∧
      offset.toNat + size ≤ poolSize := by
  unfold loanRaw
  split
  · rename_i what failed
    simp [MemoryPool.allocate, Nat.not_lt.mpr fits] at failed
  · rename_i after offset done
    have inside := (MemoryPool.allocate_fits pool.property
      (show (pool.val.allocate size).toOption = some (after, offset) by rw [done]; rfl)).1
    exact ⟨_, offset, rfl, inside⟩

theorem publishLoaned_fill (pool : Pool) (name bytes : Bytes) {offset : UInt32}
    (own : offset.toNat < poolSize) (inside : offset.toNat + bytes.length ≤ poolSize) :
    publishLoaned (fill pool offset bytes) name offset bytes.length =
      .ok ⟨name, UInt32.ofNat bytes.length, bytes⟩ := by
  have whole : poolSize = 104857600 := rfl
  have size : (UInt32.ofNat bytes.length).toNat = bytes.length := by
    rw [UInt32.toNat_ofNat', Nat.mod_eq_of_lt (by omega)]
  have known : MemoryPool.getOffset offset.toNat = .ok offset := by
    rw [MemoryPool.getOffset, if_pos own, UInt32.ofNat_toNat]
  rw [publishLoaned, known]
  simp only [Except.map, size, fill, ByteMemory.load_store]

/-! ### Back from a pointer to its offset

`getOffset` accepts the positions of the pool's bytes. An empty block has no byte of its own, so
it may begin where the pool ends.
-/

def getPointer (offset : UInt32) : Nat := offset.toNat

/-- The pointer of a block leads back to its offset, and the block can be published, whatever the
pool has become in the meantime. -/
structure Returns (offset : UInt32) (size : Nat) : Prop where
  back : MemoryPool.getOffset (getPointer offset) = .ok offset
  published : ∀ (pool : Pool) (name : Bytes), ∃ publication,
    publishLoaned pool name offset size = .ok publication

theorem returns_iff (offset : UInt32) (size : Nat) :
    Returns offset size ↔ offset.toNat < poolSize := by
  constructor
  · intro returns
    by_contra outside
    have known := returns.back
    rw [MemoryPool.getOffset, getPointer, if_neg outside] at known
    contradiction
  · intro own
    have known : MemoryPool.getOffset offset.toNat = .ok offset := by
      rw [MemoryPool.getOffset, if_pos own, UInt32.ofNat_toNat]
    refine ⟨known, fun pool name => ?_⟩
    rw [publishLoaned, known]
    exact ⟨_, rfl⟩

theorem allocate_at_end {pool after : MemoryPool} {size : Nat} {offset : UInt32}
    (bounded : pool.Bounded) (accepted : pool.allocate size = .ok (after, offset)) :
    offset.toNat = poolSize ↔ size = 0 ∧ pool.headOffset.toNat = poolSize := by
  have inside := (MemoryPool.allocate_fits bounded (by rw [accepted]; rfl)).1
  obtain ⟨_, placed, _⟩ := MemoryPool.allocate_place bounded accepted
  unfold BumpRing.place at placed
  constructor
  · intro last
    have empty : size = 0 := by omega
    have positive : 0 < poolSize := by decide
    -- the block did not start over, so it begins where the cursor was
    split at placed
    · omega
    · exact ⟨empty, placed ▸ last⟩
  · rintro ⟨rfl, last⟩
    have straight : ¬ poolSize < pool.headOffset.toNat + MemoryPool.rounded 0 := by
      rw [last]
      decide
    rw [placed, if_neg straight, last]

/-- After any sequence of allocations, the pointer of a block leads back to its offset unless the
block is empty and the cursor stood at the end of the pool. -/
theorem returns_offset_iff {pool after : MemoryPool} {size : Nat} {offset : UInt32}
    (reach : MemoryPool.machine.Reachable pool)
    (accepted : pool.allocate size = .ok (after, offset)) :
    Returns offset size ↔ ¬ (size = 0 ∧ pool.headOffset.toNat = poolSize) := by
  have bounded := MemoryPool.reachable_bounded reach
  have inside := (MemoryPool.allocate_fits bounded (by rw [accepted]; rfl)).1
  rw [returns_iff, ← allocate_at_end bounded accepted]
  omega

theorem returns_offset_iff_third : ∃ pool, MemoryPool.machine.Reachable pool ∧
    pool.headOffset = 24 ∧ Returns pool.headOffset 0 := by
  obtain ⟨pool, reach, head⟩ := Machine.reachable_of_check MemoryPool.machine (fun _ _ => True)
    rfl [.allocate 5, .allocate 13] (fun pool => decide (pool.headOffset = 24)) (by decide)
  have head := of_decide_eq_true head
  have accepted : pool.allocate 0 = .ok (pool, pool.headOffset) := by
    obtain ⟨headOffset, data⟩ := pool
    obtain rfl := head
    rfl
  refine ⟨pool, reach, head, (returns_offset_iff reach accepted).mpr ?_⟩
  rw [head]
  decide

theorem empty_block_rejected :
    ¬ ∀ pool : MemoryPool, MemoryPool.machine.Reachable pool → ∀ after size offset,
      pool.allocate size = .ok (after, offset) → Returns offset size := by
  intro claim
  let full : MemoryPool := ⟨UInt32.ofNat poolSize, MemoryPool.init.data⟩
  have first : MemoryPool.machine.next .init (.allocate poolSize) = some full := rfl
  have reach : MemoryPool.machine.Reachable full := .step (.start rfl) trivial first
  have returns := claim full reach full 0 (UInt32.ofNat poolSize) rfl
  exact absurd ((returns_iff _ _).mp returns) (by decide)

end ComIpc.Tools
