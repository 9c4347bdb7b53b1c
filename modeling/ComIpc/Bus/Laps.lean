import ComIpc.Bus.Payload
import ComIpc.MemoryPool.Regions
import ComIpc.Semantics.Laps

/-! How long a block of the pool is its holder's.

The pool takes no block back and checks no writer, so the payload of a publication is
safe by timing alone. As long as every writer writes before the pool has come round to
its own block, a block keeps what its holder wrote until the pool has come round to it.
`blocks`, `block` and `lent` are ghosts: the rounded sizes handed out so far, and which of
them each call and each loan got.
-/

set_option autoImplicit false

namespace ComIpc.Bus

open Semantics

structure Lapping (T K Id : Type) where
  bus : State T K Id
  blocks : List Nat
  block : K → Nat
  lent : List Nat

section
variable {T K Id : Type}

def Lapping.InLoan (s : Lapping T K Id) (block offset size : Nat) : Prop :=
  ∃ held ∈ s.bus.loans.zip s.lent, held.2 = block ∧
    held.1.offset.toNat ≤ offset ∧ offset + size ≤ held.1.offset.toNat + held.1.size

/-- The pool has not come round to a block. -/
abbrev Lapping.Unlapped (s : Lapping T K Id) (block : Nat) : Prop :=
  BumpRing.Unlapped poolSize s.blocks block

/-- Every write comes before the pool is round at the writer's own block. -/
def InTime (s : Lapping T K Id) : Event T K Id → Prop
  | .copyIn k => s.Unlapped (s.block k)
  | .writeLoaned offset bytes =>
    ∃ held ∈ s.bus.loans.zip s.lent, s.Unlapped held.2 ∧
      held.1.offset.toNat ≤ offset ∧ offset + bytes.length ≤ held.1.offset.toNat + held.1.size
  | _ => True

def Event.Begins : Event T K Id → Prop
  | .allocate _ _ _ _ => True
  | _ => False

def Writes (s : Lapping T K Id) (block : Nat) : Event T K Id → Prop
  | .copyIn k => s.block k = block
  | .writeLoaned offset bytes => s.InLoan block offset bytes.length
  | _ => False

instance (s : Lapping T K Id) (e : Event T K Id) : Decidable (InTime s e) :=
  match e with
  | .copyIn k => inferInstanceAs (Decidable (s.Unlapped (s.block k)))
  | .writeLoaned offset bytes => inferInstanceAs (Decidable (∃ held ∈ s.bus.loans.zip s.lent,
      s.Unlapped held.2 ∧ held.1.offset.toNat ≤ offset ∧
        offset + bytes.length ≤ held.1.offset.toNat + held.1.size))
  | .allocate _ _ _ _ | .enqueue _ _ | .loanRaw _ | .publishLoaned _ _ _ _ _ | .attach _
  | .construct _ _ | .destroy _ _ | .receive _ _ _ _ | .wake _ _ _ _ | .finish _ _ => isTrue trivial

instance (s : Lapping T K Id) (block : Nat) (e : Event T K Id) : Decidable (Writes s block e) :=
  match e with
  | .copyIn k => inferInstanceAs (Decidable (s.block k = block))
  | .writeLoaned offset bytes => inferInstanceAs (Decidable (∃ held ∈ s.bus.loans.zip s.lent,
      held.2 = block ∧ held.1.offset.toNat ≤ offset ∧
        offset + bytes.length ≤ held.1.offset.toNat + held.1.size))
  | .allocate _ _ _ _ | .enqueue _ _ | .loanRaw _ | .publishLoaned _ _ _ _ _ | .attach _
  | .construct _ _ | .destroy _ _ | .receive _ _ _ _ | .wake _ _ _ _ | .finish _ _ => isFalse id

def Lapping.At (s : Lapping T K Id) (block : Nat) (offset : UInt32) (size : Nat) : Prop :=
  BumpRing.BlockAt poolSize s.blocks block offset.toNat (MemoryPool.rounded size)

/-- The blocks lie where the ring puts them, and each has one holder. -/
structure Laid (s : Lapping T K Id) : Prop where
  bounded : s.bus.pool.Bounded
  cursor : s.bus.pool.headOffset.toNat = BumpRing.cursor poolSize 0 s.blocks
  calls : ∀ k call, s.bus.calls k = some call → s.At (s.block k) call.offset call.data.length
  loans : ∀ held ∈ s.bus.loans.zip s.lent, s.At held.2 held.1.offset held.1.size
  lengths : s.lent.length = s.bus.loans.length
  alone : ∀ k call k' call', s.bus.calls k = some call → s.bus.calls k' = some call' →
    s.block k = s.block k' → k = k'
  apart : ∀ k call, s.bus.calls k = some call → s.block k ∉ s.lent

theorem Laid.goOn {s : Lapping T K Id} (laid : Laid s) {bus : State T K Id}
    (pool : bus.pool.headOffset = s.bus.pool.headOffset) (loans : bus.loans = s.bus.loans)
    (keeps : Keeps s.bus.calls bus.calls)
    (known : ∀ k, s.bus.calls k = none → bus.calls k = none) : Laid { s with bus := bus } := by
  have earlier : ∀ k call, bus.calls k = some call → ∃ before, s.bus.calls k = some before ∧
      call.offset = before.offset ∧ call.data = before.data := by
    intro k call found
    cases was : s.bus.calls k with
    | none => exact absurd (found.symm.trans (known k was)) nofun
    | some before =>
      obtain ⟨after, found', later⟩ := keeps k before was
      cases Option.some.inj (found.symm.trans found')
      exact ⟨before, rfl, later.offset, later.data⟩
  constructor
  · rw [MemoryPool.Bounded, pool]
    exact laid.bounded
  · rw [pool]
    exact laid.cursor
  · intro k call found
    obtain ⟨before, was, offset, data⟩ := earlier k call found
    simpa only [Lapping.At, offset, data] using laid.calls k before was
  · exact loans ▸ laid.loans
  · exact loans ▸ laid.lengths
  · intro k call k' call' found found' same
    obtain ⟨before, was, _⟩ := earlier k call found
    obtain ⟨before', was', _⟩ := earlier k' call' found'
    exact laid.alone k before k' before' was was' same
  · intro k call found
    obtain ⟨before, was, _⟩ := earlier k call found
    exact laid.apart k before was

theorem Laid.handsOut {s : Lapping T K Id} (laid : Laid s) {size : Nat} {pool : MemoryPool}
    {offset : UInt32} (done : (s.bus.pool.allocate size).toOption = some (pool, offset)) :
    BumpRing.BlockAt poolSize (s.blocks ++ [MemoryPool.rounded size]) s.blocks.length
      offset.toNat (MemoryPool.rounded size) ∧
    pool.headOffset.toNat =
      BumpRing.cursor poolSize 0 (s.blocks ++ [MemoryPool.rounded size]) ∧ pool.Bounded := by
  cases tried : s.bus.pool.allocate size with
  | error what =>
    rw [tried] at done
    contradiction
  | ok result =>
    rw [tried] at done
    obtain rfl := Option.some.inj done
    obtain ⟨_, placed, moved⟩ := MemoryPool.allocate_place laid.bounded tried
    rw [laid.cursor] at placed
    refine ⟨?_, ?_, MemoryPool.allocate_bounded laid.bounded tried⟩
    · rw [placed]
      exact .last s.blocks (MemoryPool.rounded size)
    · rw [moved, placed, BumpRing.cursor_concat]

theorem Laid.fresh {s : Lapping T K Id} (laid : Laid s) {k : K} {call : PublishCall T}
    (found : s.bus.calls k = some call) : s.block k ≠ s.blocks.length :=
  Nat.ne_of_lt (laid.calls k call found).bound

theorem Laid.fresh_loan {s : Lapping T K Id} (laid : Laid s) {block : Nat}
    (member : block ∈ s.lent) : block ≠ s.blocks.length := by
  -- a loan on record has its block, so the number of blocks is still free
  obtain ⟨n, bound, rfl⟩ := List.mem_iff_getElem.mp member
  have paired : n < (s.bus.loans.zip s.lent).length := by
    rw [List.length_zip, laid.lengths]
    have := laid.lengths
    omega
  have held := laid.loans _ (List.getElem_mem paired)
  rw [List.getElem_zip] at held
  exact Nat.ne_of_lt held.bound

theorem Lapping.At.apart {s : Lapping T K Id} {first second size size' start : Nat}
    {offset offset' : UInt32} (here : s.At first offset size) (there : s.At second offset' size')
    (other : first ≠ second) (unlapped : s.Unlapped first) (unlapped' : s.Unlapped second)
    {length : Nat} (inside : offset.toNat ≤ start ∧ start + length ≤ offset.toNat + size) :
    ¬ ByteMemory.Overlap start length offset'.toNat size' := by
  have apart := unlapped.apart other unlapped' here there
  have small := MemoryPool.le_rounded size
  have small' := MemoryPool.le_rounded size'
  unfold ByteMemory.Overlap
  omega

variable [DecidableEq K]

def Lapping.note (s : Lapping T K Id) (bus : State T K Id) : Event T K Id → Lapping T K Id
  | .allocate k _ _ data =>
    ⟨bus, s.blocks ++ [MemoryPool.rounded data.length],
      Function.update s.block k s.blocks.length, s.lent⟩
  | .loanRaw size =>
    ⟨bus, s.blocks ++ [MemoryPool.rounded size], s.block, s.lent ++ [s.blocks.length]⟩
  | _ => { s with bus := bus }

@[simp] theorem note_bus (s : Lapping T K Id) (bus : State T K Id) (e : Event T K Id) :
    (s.note bus e).bus = bus := by
  cases e <;> rfl

theorem Laid.allocate {s : Lapping T K Id} (laid : Laid s) {bus : State T K Id} {k : K} {t : T}
    {type : MessageType} {data : Bytes} (taken : s.bus.allocate k t type data = some bus) :
    Laid (s.note bus (.allocate k t type data)) := by
  obtain ⟨absent, pool, offset, done, rfl⟩ := allocate_eq taken
  obtain ⟨placed, cursor, bounded⟩ := laid.handsOut done
  -- the call is new, so everybody else keeps a smaller block number
  have numbers : ∀ j call, Function.update s.bus.calls k
      (some ⟨t, type, data, offset, .allocated, false⟩) j = some call →
      (j = k ∧ Function.update s.block k s.blocks.length j = s.blocks.length) ∨
      (s.bus.calls j = some call ∧ Function.update s.block k s.blocks.length j = s.block j) := by
    intro j call found
    by_cases self : j = k
    · subst self
      exact .inl ⟨rfl, Function.update_self _ _ _⟩
    · rw [Function.update_of_ne self] at found
      exact .inr ⟨found, Function.update_of_ne self _ _⟩
  constructor
  · exact bounded
  · exact cursor
  · intro j call found
    simp only [Lapping.note] at found ⊢
    by_cases self : j = k
    · subst self
      simp only [Function.update_self, Option.some.injEq] at found ⊢
      subst found
      exact placed
    · simp only [Function.update_of_ne self] at found ⊢
      exact (laid.calls j call found).concat _
  · exact fun held member => (laid.loans held member).concat _
  · exact laid.lengths
  · intro j call j' call' found found' same
    simp only [Lapping.note] at found found' same
    rcases numbers j call found with ⟨rfl, new⟩ | ⟨was, old⟩
    · rcases numbers j' call' found' with ⟨rfl, _⟩ | ⟨was', old'⟩
      · rfl
      · exact absurd (old'.symm.trans (same.symm.trans new)) (laid.fresh was')
    · rcases numbers j' call' found' with ⟨rfl, new'⟩ | ⟨was', old'⟩
      · exact absurd (old.symm.trans (same.trans new')) (laid.fresh was)
      · exact laid.alone j call j' call' was was' (old.symm.trans (same.trans old'))
  · intro j call found member
    simp only [Lapping.note] at found member
    rcases numbers j call found with ⟨_, new⟩ | ⟨was, old⟩
    · exact laid.fresh_loan (new ▸ member) rfl
    · exact laid.apart j call was (old ▸ member)

theorem Laid.loanRaw {s : Lapping T K Id} (laid : Laid s) {bus : State T K Id} {size : Nat}
    (taken : s.bus.loanRaw size = some bus) : Laid (s.note bus (.loanRaw size)) := by
  simp only [State.loanRaw, Option.bind_eq_bind, Option.bind_eq_some_iff,
    Option.some.injEq] at taken
  obtain ⟨⟨pool, offset⟩, done, rfl⟩ := taken
  obtain ⟨placed, cursor, bounded⟩ := laid.handsOut done
  constructor
  · exact bounded
  · exact cursor
  · exact fun k call found => (laid.calls k call found).concat _
  · intro held member
    simp only [Lapping.note, List.zip_append laid.lengths.symm, List.mem_append] at member
    rcases member with old | new
    · exact (laid.loans held old).concat _
    · obtain rfl := List.mem_singleton.mp new
      exact placed
  · simp only [Lapping.note, List.length_append, laid.lengths, List.length_singleton]
  · exact laid.alone
  · intro k call found member
    rcases List.mem_append.mp member with old | new
    · exact laid.apart k call found old
    · exact laid.fresh found (List.mem_singleton.mp new)

theorem Lapping.At.note {s : Lapping T K Id} {block size : Nat} {offset : UInt32}
    (here : s.At block offset size) (bus : State T K Id) (e : Event T K Id) :
    (s.note bus e).At block offset size := by
  cases e with
  | allocate | loanRaw => exact here.concat _
  | _ => exact here

theorem Lapping.unlapped_note {s : Lapping T K Id} {block : Nat} {bus : State T K Id}
    {e : Event T K Id} (unlapped : (s.note bus e).Unlapped block) : s.Unlapped block := by
  cases e with
  | allocate | loanRaw => exact unlapped.before
  | _ => exact unlapped

variable [DecidableEq T] [DecidableEq Id]

def lapping (T K Id : Type) [DecidableEq T] [DecidableEq K] [DecidableEq Id] :
    Machine (Lapping T K Id) (Event T K Id) where
  initial := fun s => s = ⟨.init, [], fun _ => 0, []⟩
  next := fun s e => (next s.bus e).map fun bus => s.note bus e

theorem lapping_next {s t : Lapping T K Id} {e : Event T K Id}
    (taken : (lapping T K Id).next s e = some t) :
    ∃ bus, Bus.next s.bus e = some bus ∧ t = s.note bus e := by
  obtain ⟨bus, stepped, rfl⟩ := Option.map_eq_some_iff.mp taken
  exact ⟨bus, stepped, rfl⟩

theorem lapping_bus {s : Lapping T K Id} {allowed : Lapping T K Id → Event T K Id → Prop}
    (reach : (lapping T K Id).ReachableWhen allowed s) : (machine T K Id).Reachable s.bus := by
  refine reach.invariant (fun s => (machine T K Id).Reachable s.bus) ?_ ?_
  · rintro s rfl
    exact .start rfl
  · intro s e t before _ taken
    obtain ⟨bus, stepped, rfl⟩ := lapping_next taken
    rw [note_bus]
    exact .step before trivial stepped

theorem Laid.next {s : Lapping T K Id} {e : Event T K Id} (laid : Laid s) {bus : State T K Id}
    (taken : Bus.next s.bus e = some bus) : Laid (s.note bus e) := by
  have calls := next_calls taken
  have known : ¬ e.Begins → ∀ k, s.bus.calls k = none → bus.calls k = none := by
    intro other k absent
    cases found : bus.calls k with
    | none => rfl
    | some call =>
      rw [calls.begun k call found absent] at other
      exact absurd trivial other
  cases e with
  | allocate => exact laid.allocate taken
  | loanRaw => exact laid.loanRaw taken
  | copyIn =>
    obtain ⟨_, _, _, rfl⟩ := copyIn_eq taken
    exact laid.goOn rfl rfl calls.keeps (known id)
  | enqueue =>
    obtain ⟨_, _, _, _, _, rfl⟩ := enqueue_eq taken
    exact laid.goOn rfl rfl calls.keeps (known id)
  | writeLoaned =>
    simp only [Bus.next, State.writeLoaned, Option.bind_eq_bind, Option.bind_eq_some_iff,
      Option.some.injEq] at taken
    obtain ⟨_, _, rfl⟩ := taken
    exact laid.goOn rfl rfl calls.keeps (known id)
  | publishLoaned =>
    obtain ⟨_, _, _, _, rfl⟩ := publishLoaned_eq taken
    exact laid.goOn rfl rfl calls.keeps (known id)
  | finish =>
    obtain ⟨_, _, _, _, rfl⟩ := finish_eq taken
    exact laid.goOn rfl rfl calls.keeps (known id)
  | attach | construct | destroy | receive | wake =>
    obtain ⟨_, _, rfl⟩ := onTopic_eq taken
    exact laid.goOn rfl rfl calls.keeps (known id)

theorem reachable_laid {s : Lapping T K Id} {allowed : Lapping T K Id → Event T K Id → Prop}
    (reach : (lapping T K Id).ReachableWhen allowed s) : Laid s := by
  refine reach.invariant Laid ?_ ?_
  · rintro s rfl
    constructor <;> simp [State.init, MemoryPool.init, MemoryPool.Bounded, BumpRing.cursor]
  · intro s e t laid _ taken
    obtain ⟨bus, stepped, rfl⟩ := lapping_next taken
    exact laid.next stepped

end

end ComIpc.Bus
