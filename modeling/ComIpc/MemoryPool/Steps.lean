import ComIpc.MemoryPool
import ComIpc.Semantics.Machine
import ComIpc.SystemManager.Lock

/-! `MemoryPool::allocate`, one access at a time.

The cursor is read and stored between the lock and the unlock of the pool mutex. What an
allocation does that nobody interrupts is what `MemoryPool.allocate` says of it as a whole.
-/

set_option autoImplicit false

namespace ComIpc.MemoryPool.Steps

open Semantics SystemManager

inductive Pc where
  | idle
  | locking (size : Nat)
  | reading (size : Nat)
  /-- The block and the cursor behind it are computed. -/
  | storing (offset head : UInt32)
  | unlocking (offset : UInt32)
  deriving DecidableEq

structure State (P : Type) where
  mutex : RobustMutex
  pool : MemoryPool
  pcs : P → Pc

inductive Use where
  | call (size : Nat)
  | step
  deriving DecidableEq

def Pc.locked : Pc → Bool
  | .idle | .locking _ => false
  | _ => true

section
variable {P : Type} [DecidableEq P]

def State.goto (s : State P) (p : P) (pc : Pc) : State P :=
  { s with pcs := Function.update s.pcs p pc }

def next (s : State P) (p : P) : Use → Option (State P)
  | .call size => do
    guard (s.pcs p = .idle)
    -- too large a size is an exception, and nothing is locked
    some (if size > poolSize then s else s.goto p (.locking size))
  | .step =>
    match s.pcs p with
    | .idle => none
    | .locking size => do
      let (taken, _) ← lockRobust s.mutex
      some (State.goto { s with mutex := taken } p (.reading size))
    | .reading size =>
      match s.pool.allocate size with
      | .ok (after, offset) => some (s.goto p (.storing offset after.headOffset))
      | .error _ => none
    | .storing offset head =>
      some (State.goto { s with pool := { s.pool with headOffset := head } } p (.unlocking offset))
    | .unlocking _ => some (State.goto { s with mutex := s.mutex.unlock } p .idle)

def uses (P : Type) [DecidableEq P] : Machine (State P) (P × Use) where
  initial := fun s => s.mutex = .unlocked ∧ s.pool = .init ∧ s.pcs = fun _ => .idle
  next := fun s use => next s use.1 use.2

/-- Four accesses of one process are one allocation. -/
theorem allocates {s : State P} {p : P} {size : Nat} {after : MemoryPool} {offset : UInt32}
    (idle : s.pcs p = .idle) (free : s.mutex = .unlocked)
    (done : s.pool.allocate size = .ok (after, offset)) :
    (uses P).run s ((p, .call size) :: List.replicate 4 (p, .step)) =
      some { s with pool := after } := by
  have fits : ¬ size > poolSize := by
    intro large
    simp [allocate, large] at done
  have same : ({ s.pool with headOffset := after.headOffset } : MemoryPool) = after := by
    rw [allocate, if_neg fits] at done
    obtain ⟨rfl, _⟩ := Prod.mk.inj (Except.ok.inj done)
    rfl
  have back : Function.update s.pcs p .idle = s.pcs := by
    rw [← idle, Function.update_eq_self]
  have called : next s p (.call size) = some (s.goto p (.locking size)) := by
    simp [next, idle, fits, guard]
  have locked : next (s.goto p (.locking size)) p .step =
      some (State.goto { s with mutex := .held } p (.reading size)) := by
    simp [next, State.goto, free, lockRobust, RobustMutex.lock]
  have read : next (State.goto { s with mutex := .held } p (.reading size)) p .step =
      some (State.goto { s with mutex := .held } p (.storing offset after.headOffset)) := by
    simp [next, State.goto, done]
  have stored : next (State.goto { s with mutex := .held } p (.storing offset after.headOffset)) p
      .step = some (State.goto { s with mutex := .held, pool := after } p (.unlocking offset)) := by
    simp [next, State.goto, same]
  have unlocked : next (State.goto { s with mutex := .held, pool := after } p (.unlocking offset))
      p .step = some { s with pool := after } := by
    simp [next, State.goto, back, free]
  simp only [List.replicate_succ, List.replicate_zero, Machine.run, uses, called, locked, read,
    stored, unlocked, Option.bind_some]

end

end ComIpc.MemoryPool.Steps
