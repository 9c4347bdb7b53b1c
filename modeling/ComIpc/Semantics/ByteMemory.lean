import Mathlib.Logic.Function.Basic

/-! A flat byte memory with block copies. -/

set_option autoImplicit false

namespace ComIpc.Semantics

abbrev ByteMemory := Nat → UInt8

namespace ByteMemory

def load (memory : ByteMemory) (offset size : Nat) : List UInt8 :=
  (List.range size).map fun i => memory (offset + i)

def store (memory : ByteMemory) (offset : Nat) (bytes : List UInt8) : ByteMemory := fun address =>
  if offset ≤ address then (bytes[address - offset]?).getD (memory address) else memory address

def Overlap (offset size offset' size' : Nat) : Prop :=
  max offset offset' < min (offset + size) (offset' + size')

instance (offset size offset' size' : Nat) : Decidable (Overlap offset size offset' size') :=
  inferInstanceAs (Decidable (_ < _))

@[simp] theorem length_load (memory : ByteMemory) (offset size : Nat) :
    (memory.load offset size).length = size := by
  simp [load]

theorem load_store (memory : ByteMemory) (offset : Nat) (bytes : List UInt8) :
    (memory.store offset bytes).load offset bytes.length = bytes := by
  apply List.ext_getElem (by simp)
  intro i _ bound
  simp [load, store, bound]

theorem store_outside (memory : ByteMemory) {offset address : Nat} {bytes : List UInt8}
    (outside : address < offset ∨ offset + bytes.length ≤ address) :
    memory.store offset bytes address = memory address := by
  unfold store
  split
  · rw [List.getElem?_eq_none (by omega)]
    rfl
  · rfl

/-- The frame rule: a store leaves the blocks that it does not overlap as they are. -/
theorem load_store_apart (memory : ByteMemory) {offset offset' size : Nat} {bytes : List UInt8}
    (apart : ¬ Overlap offset bytes.length offset' size) :
    (memory.store offset bytes).load offset' size = memory.load offset' size := by
  refine List.map_congr_left fun i member => store_outside memory ?_
  have inside := List.mem_range.mp member
  unfold Overlap at apart
  omega

end ByteMemory

end ComIpc.Semantics
