import ComIpc.Bus.Payload
import ComIpc.Semantics.Refinement

/-! A publish without the copy.

`loanRaw`, a write through the loaned pointer and `publishLoaned` do in three calls what
`publishRaw` does in one. Replace every `publishRaw` of a run by the three: at each step
the pool, the rings, the subscribers and what the receives copy out are the same. An
empty payload can make a difference, as its block may begin where the pool ends, and so
can `g_shutdown_requested`: `publishRaw` looks at it before it takes its block, and
`publishLoaned` when the block is filled.
-/

set_option autoImplicit false

namespace ComIpc.Bus

open Semantics

structure Copied (T Id : Type) where
  topic : T
  subscriber : Id
  header : MessageHeader
  payload : Bytes
  deriving DecidableEq, Repr

/-- What processes share and what they get out of it. -/
structure Shared (T Id : Type) where
  pool : MemoryPool
  topics : T → Topic.State Id
  copied : List (Copied T Id)

section
variable {T K Id : Type}

def Receipt.copied (r : Receipt T K Id) : Copied T Id :=
  ⟨r.topic, r.subscriber, r.header, r.payload⟩

def State.shared (s : State T K Id) : Shared T Id :=
  ⟨s.pool, s.topics, s.receipts.map Receipt.copied⟩

/-- The three parts of a `publishRaw`, and the three calls in their place. -/
def zeroCopy (s : State T K Id) : Event T K Id → Event T K Id
  | .allocate _ _ _ data => .loanRaw data.length
  | .copyIn k => match s.calls k with
    | some call => .writeLoaned call.offset.toNat call.data
    | none => .copyIn k
  | .enqueue k now => match s.calls k with
    | some call =>
      .publishLoaned call.topic call.type call.offset.toNat call.data.length now
    | none => .enqueue k now
  | e => e

def Event.IsAllocate : Event T K Id → Prop
  | .allocate _ _ _ _ => True
  | _ => False

def EmptyInside (s : State T K Id) : Event T K Id → Prop
  | .enqueue k _ => ∀ call ∈ s.calls k, call.data = [] → call.offset.toNat < poolSize
  | _ => True

instance (s : State T K Id) (e : Event T K Id) : Decidable (EmptyInside s e) :=
  match e with
  | .enqueue _ _ => inferInstanceAs (Decidable (∀ call ∈ _, _))
  | .allocate _ _ _ _ | .copyIn _ | .loanRaw _ | .writeLoaned _ _ | .publishLoaned _ _ _ _ _
  | .attach _ | .construct _ _ | .destroy _ _ | .receive _ _ _ _ | .wake _ _ _ _
  | .finish _ _ => isTrue trivial

/-- The same memory; a call's block is on loan. -/
structure Mirrors (s a : State T K Id) : Prop where
  shared : a.shared = s.shared
  loans : ∀ loan ∈ s.loans, loan ∈ a.loans
  calls : ∀ k call, s.calls k = some call → ⟨call.offset, call.data.length⟩ ∈ a.loans

theorem Mirrors.pool {s a : State T K Id} (mirrors : Mirrors s a) : a.pool = s.pool :=
  congrArg Shared.pool mirrors.shared

theorem Mirrors.topics {s a : State T K Id} (mirrors : Mirrors s a) : a.topics = s.topics :=
  congrArg Shared.topics mirrors.shared

theorem Mirrors.copied {s a : State T K Id} (mirrors : Mirrors s a) :
    a.receipts.map Receipt.copied = s.receipts.map Receipt.copied :=
  congrArg Shared.copied mirrors.shared

theorem Mirrors.copyOut {s a : State T K Id} (mirrors : Mirrors s a) (t : T) (i : Id)
    (phase : Topic.Phase) :
    (a.copyOut t i phase).map Receipt.copied = (s.copyOut t i phase).map Receipt.copied := by
  unfold State.copyOut
  split
  · rw [mirrors.pool]
    split <;> rfl
  · rfl

section
variable [DecidableEq T] [DecidableEq Id]

theorem Mirrors.onTopic {s a t : State T K Id} (mirrors : Mirrors s a) {topic : T}
    {e : Topic.Event Id} (taken : s.onTopic topic e = some t) :
    ∃ b, a.onTopic topic e = some b ∧ b.shared = t.shared ∧ b.loans = a.loans := by
  obtain ⟨after, stepped, rfl⟩ := onTopic_eq taken
  refine ⟨{ a with topics := Function.update a.topics topic after }, ?_, ?_, rfl⟩
  · simp [State.onTopic, mirrors.topics, stepped]
  · simp only [State.shared, mirrors.pool, mirrors.topics, mirrors.copied]

theorem Mirrors.publishLoaned {s a t : State T K Id} (mirrors : Mirrors s a) {topic : T}
    {type : MessageType} {position size : Nat} {now : Int64}
    (taken : s.publishLoaned topic type position size now = some t) :
    ∃ b, a.publishLoaned topic type position size now = some b ∧ b.shared = t.shared ∧
      b.loans = a.loans := by
  obtain ⟨offset, after, got, stepped, rfl⟩ := publishLoaned_eq taken
  refine ⟨{ a with
    topics := Function.update a.topics topic after
    sources := Function.update a.sources topic (a.sources topic ++ [none]) }, ?_, ?_, rfl⟩
  · simp [State.publishLoaned, State.onTopic, mirrors.topics, got, stepped]
  · simp only [State.shared, mirrors.pool, mirrors.topics, mirrors.copied]

theorem Mirrors.finish {s a t : State T K Id} (mirrors : Mirrors s a) {topic : T} {i : Id}
    (taken : s.finish topic i = some t) :
    ∃ b, a.finish topic i = some b ∧ b.shared = t.shared ∧ b.loans = a.loans := by
  obtain ⟨sub, after, alive, stepped, rfl⟩ := finish_eq taken
  refine ⟨{ a with
    topics := Function.update a.topics topic after
    receipts := a.receipts ++ a.copyOut topic i sub.phase }, ?_, ?_, rfl⟩
  · simp [State.finish, State.onTopic, mirrors.topics, alive, stepped]
  · simp only [State.shared, mirrors.pool, mirrors.topics, List.map_append, mirrors.copied,
      mirrors.copyOut]

end

theorem Mirrors.loanRaw {s a : State T K Id} (mirrors : Mirrors s a) {size : Nat}
    {pool : MemoryPool} {offset : UInt32}
    (done : (s.pool.allocate size).toOption = some (pool, offset)) :
    ∃ b, a.loanRaw size = some b ∧ b.shared = { s.shared with pool := pool } ∧
      b.loans = a.loans ++ [⟨offset, size⟩] := by
  refine ⟨{ a with pool := pool, loans := a.loans ++ [⟨offset, size⟩] }, ?_, ?_, rfl⟩
  · simp [State.loanRaw, mirrors.pool, done]
  · simp only [State.shared, mirrors.topics, mirrors.copied]

theorem Mirrors.writeLoaned {s a : State T K Id} (mirrors : Mirrors s a) {offset : Nat}
    {bytes : Bytes} {loan : Loan} (member : loan ∈ a.loans) (begins : loan.offset.toNat ≤ offset)
    (ends : offset + bytes.length ≤ loan.offset.toNat + loan.size) :
    ∃ b, a.writeLoaned offset bytes = some b ∧
      b.shared = { s.shared with pool.data := s.pool.data.store offset bytes } ∧
      b.loans = a.loans := by
  refine ⟨{ a with
    pool := { a.pool with data := a.pool.data.store offset bytes }
    calls := damage a.calls offset bytes.length }, ?_, ?_, rfl⟩
  · have covered : (a.loans.any fun loan => loan.offset.toNat ≤ offset ∧
        offset + bytes.length ≤ loan.offset.toNat + loan.size) = true :=
      List.any_eq_true.mpr ⟨loan, member, decide_eq_true ⟨begins, ends⟩⟩
    rw [State.writeLoaned, (guard_passed (u := ())).mpr covered]
    rfl
  · simp only [State.shared, mirrors.pool, mirrors.topics, mirrors.copied]

variable [DecidableEq T] [DecidableEq K] [DecidableEq Id]

theorem Mirrors.step {s a t b : State T K Id} {e : Event T K Id} (mirrors : Mirrors s a)
    (taken : next s e = some t) (shared : b.shared = t.shared)
    (loans : ∀ loan ∈ t.loans, loan ∈ b.loans) (kept : ∀ loan ∈ a.loans, loan ∈ b.loans)
    (begun : ∀ k call, e = .allocate k call.topic call.type call.data → t.calls k = some call →
      ⟨call.offset, call.data.length⟩ ∈ b.loans) : Mirrors t b where
  shared := shared
  loans := loans
  calls := by
    intro k call found
    have goOn := next_calls taken
    cases before : s.calls k with
    | none => exact begun k call (goOn.begun k call found before) found
    | some old =>
      obtain ⟨same, found', later⟩ := goOn.keeps k old before
      obtain rfl := Option.some.inj (found.symm.trans found')
      rw [later.offset, later.data]
      exact kept _ (mirrors.calls k old before)

theorem Mirrors.old {s a t b : State T K Id} {e : Event T K Id} (mirrors : Mirrors s a)
    (taken : next s e = some t) (old : ¬ e.IsAllocate) (shared : b.shared = t.shared)
    (loans : ∀ loan ∈ t.loans, loan ∈ b.loans) (kept : ∀ loan ∈ a.loans, loan ∈ b.loans) :
    Mirrors t b := by
  apply mirrors.step taken shared loans kept
  intro k call begun
  rw [begun] at old
  exact absurd trivial old

theorem Mirrors.still {s a t b : State T K Id} {e : Event T K Id} (mirrors : Mirrors s a)
    (taken : next s e = some t) (old : ¬ e.IsAllocate) (same : t.loans = s.loans)
    (shared : b.shared = t.shared) (loans : b.loans = a.loans) : Mirrors t b := by
  apply mirrors.old taken old shared
  · rw [same, loans]
    exact mirrors.loans
  · rw [loans]
    exact fun _ member => member

theorem next_zeroCopy {s a t : State T K Id} {e : Event T K Id} (sound : Sound s)
    (mirrors : Mirrors s a) (inside : EmptyInside s e) (taken : next s e = some t) :
    ∃ b, next a (zeroCopy s e) = some b ∧ Mirrors t b := by
  cases e with
  | allocate k topic type data =>
    obtain ⟨_, pool, offset, done, rfl⟩ := allocate_eq taken
    obtain ⟨b, moved, shared, loans⟩ := mirrors.loanRaw done
    refine ⟨b, moved, mirrors.step taken shared ?_ ?_ ?_⟩
    · exact fun loan member => loans ▸ List.mem_append_left _ (mirrors.loans loan member)
    · exact fun loan member => loans ▸ List.mem_append_left _ member
    · intro other call begun found
      obtain ⟨rfl, rfl, rfl, rfl⟩ := Event.allocate.inj begun
      simp only [Function.update_self, Option.some.injEq] at found
      rw [loans, ← found]
      exact List.mem_append_right _ List.mem_cons_self
  | copyIn k =>
    obtain ⟨call, found, _, rfl⟩ := copyIn_eq taken
    obtain ⟨b, moved, shared, loans⟩ := mirrors.writeLoaned (mirrors.calls k call found)
      (Nat.le_refl call.offset.toNat) (Nat.le_refl (call.offset.toNat + call.data.length))
    refine ⟨b, ?_, mirrors.still taken id rfl shared loans⟩
    rw [zeroCopy, found]
    exact moved
  | enqueue k now =>
    obtain ⟨call, after, found, _, stepped, rfl⟩ := enqueue_eq taken
    have within := (sound.stored k call found).inside
    have starts : call.offset.toNat < poolSize := by
      cases empty : call.data with
      | nil => exact inside call found empty
      | cons first rest =>
        rw [empty, List.length_cons] at within
        omega
    have got : (MemoryPool.getOffset call.offset.toNat).toOption = some call.offset := by
      simp [MemoryPool.getOffset, starts, Except.toOption]
    have shown : ∃ b, a.publishLoaned call.topic call.type call.offset.toNat call.data.length now
        = some b ∧ b.shared = { s.shared with
          topics := Function.update s.topics call.topic after } ∧ b.loans = a.loans := by
      refine ⟨{ a with
        topics := Function.update a.topics call.topic after
        sources := Function.update a.sources call.topic (a.sources call.topic ++ [none]) },
        ?_, ?_, rfl⟩
      · -- to a topic the two kinds of publication are one
        have stepped : Topic.next (s.topics call.topic)
            (.publishLoaned ⟨call.type, call.data.length, call.offset, now⟩) = some after :=
          stepped
        simp [State.publishLoaned, State.onTopic, mirrors.topics, got, stepped]
      · simp only [State.shared, mirrors.pool, mirrors.topics, mirrors.copied]
    obtain ⟨b, moved, shared, loans⟩ := shown
    refine ⟨b, ?_, mirrors.still taken id rfl shared loans⟩
    rw [zeroCopy, found]
    exact moved
  | loanRaw size =>
    have done := taken
    simp only [next, State.loanRaw, Option.bind_eq_bind, Option.bind_eq_some_iff,
      Option.some.injEq] at done
    obtain ⟨⟨pool, offset⟩, done, rfl⟩ := done
    obtain ⟨b, moved, shared, loans⟩ := mirrors.loanRaw done
    refine ⟨b, moved, mirrors.old taken id shared ?_ ?_⟩
    · intro loan member
      rw [loans]
      rcases List.mem_append.mp member with old | new
      · exact List.mem_append_left _ (mirrors.loans loan old)
      · exact List.mem_append_right _ new
    · exact fun loan member => loans ▸ List.mem_append_left _ member
  | writeLoaned offset bytes =>
    have done := taken
    simp only [next, State.writeLoaned, Option.bind_eq_bind, Option.bind_eq_some_iff,
      guard_passed, Option.some.injEq] at done
    obtain ⟨_, covered, rfl⟩ := done
    obtain ⟨loan, member, bounds⟩ := List.any_eq_true.mp covered
    obtain ⟨begins, ends⟩ := of_decide_eq_true bounds
    obtain ⟨b, moved, shared, loans⟩ := mirrors.writeLoaned (mirrors.loans loan member) begins ends
    exact ⟨b, moved, mirrors.still taken id rfl shared loans⟩
  | publishLoaned topic type position size now =>
    obtain ⟨b, moved, shared, loans⟩ := mirrors.publishLoaned taken
    obtain ⟨_, _, _, _, rfl⟩ := publishLoaned_eq taken
    exact ⟨b, moved, mirrors.still taken id rfl shared loans⟩
  | finish topic i =>
    obtain ⟨b, moved, shared, loans⟩ := mirrors.finish taken
    obtain ⟨_, _, _, _, rfl⟩ := finish_eq taken
    exact ⟨b, moved, mirrors.still taken id rfl shared loans⟩
  | attach | construct | destroy | receive | wake =>
    obtain ⟨b, moved, shared, loans⟩ := mirrors.onTopic taken
    obtain ⟨_, _, rfl⟩ := onTopic_eq taken
    exact ⟨b, moved, mirrors.still taken id rfl shared loans⟩

end

/-! ### Processes and their flags -/

section
variable {T K Id : Type}

/-- `publishRaw` and `publishLoaned` begin with a look at the flag. -/
def Event.looks : Event T K Id → Bool
  | .allocate _ _ _ _ | .publishLoaned _ _ _ _ _ => true
  | _ => false

def Event.flag : Event T K Id → Option Bool
  | .receive _ _ _ shutdown | .wake _ _ _ shutdown => some shutdown
  | _ => none

def Event.isRaw : Event T K Id → Bool
  | .allocate _ _ _ _ | .copyIn _ | .enqueue _ _ => true
  | _ => false

section
variable {P : Type}

/-- The bus and the flag of every process. -/
structure Processes (P T K Id : Type) where
  bus : State T K Id
  shutdown : P → Bool

inductive Processes.Event (P T K Id : Type) where
  | act (p : P) (e : Bus.Event T K Id)
  /-- The process catches a signal. -/
  | signal (p : P)
  deriving DecidableEq

def Processes.init : Processes P T K Id := ⟨.init, fun _ => false⟩

def Processes.zeroCopy (s : Processes P T K Id) : Processes.Event P T K Id →
    Processes.Event P T K Id
  | .act p e => .act p (Bus.zeroCopy s.bus e)
  | .signal p => .signal p

/-- A process that publishes by `publishRaw` is not told to shut down, and no empty payload goes
out at the very end of the pool. -/
def Undisturbed (s : Processes P T K Id) : Processes.Event P T K Id → Prop
  | .act p e => (e.isRaw = true → s.shutdown p = false) ∧ EmptyInside s.bus e
  | .signal _ => True

instance (s : Processes P T K Id) (e : Processes.Event P T K Id) : Decidable (Undisturbed s e) :=
  match e with
  | .act p e => inferInstanceAs (Decidable ((e.isRaw = true → s.shutdown p = false) ∧ _))
  | .signal _ => isTrue trivial

def NoRaw (_ : Processes P T K Id) : Processes.Event P T K Id → Prop
  | .act _ e => e.isRaw = false
  | .signal _ => True

instance (s : Processes P T K Id) (e : Processes.Event P T K Id) : Decidable (NoRaw s e) :=
  match e with
  | .act _ e => inferInstanceAs (Decidable (e.isRaw = false))
  | .signal _ => isTrue trivial

def leaves (_ : Processes P T K Id) (_ : Processes.Event P T K Id) (t : Processes P T K Id) :
    List (Shared T Id) :=
  [t.bus.shared]

variable [DecidableEq P] [DecidableEq T] [DecidableEq K] [DecidableEq Id]

def Processes.next (s : Processes P T K Id) : Processes.Event P T K Id →
    Option (Processes P T K Id)
  | .act p e => do
    guard (∀ flag ∈ e.flag, flag = s.shutdown p)
    -- the call returns false
    if e.looks && s.shutdown p then some s
    else
      let bus ← Bus.next s.bus e
      some { s with bus := bus }
  | .signal p => some { s with shutdown := Function.update s.shutdown p true }

def processes (P T K Id : Type) [DecidableEq P] [DecidableEq T] [DecidableEq K] [DecidableEq Id] :
    Machine (Processes P T K Id) (Processes.Event P T K Id) where
  initial := fun s => s = .init
  next := Processes.next

/-- The run with every `publishRaw` replaced; all other steps are kept. -/
def Processes.zeroCopies (s : Processes P T K Id) :
    List (Processes.Event P T K Id) → List (Processes.Event P T K Id)
  | [] => []
  | e :: rest =>
    s.zeroCopy e :: match s.next e with
      | some t => t.zeroCopies rest
      | none => []

theorem processes_act {s t : Processes P T K Id} {p : P} {e : Event T K Id}
    (taken : s.next (.act p e) = some t) : (∀ flag ∈ e.flag, flag = s.shutdown p) ∧
      (((e.looks && s.shutdown p) = true ∧ t = s) ∨
      ((e.looks && s.shutdown p) = false ∧
        ∃ bus, Bus.next s.bus e = some bus ∧ t = { s with bus := bus })) := by
  simp only [Processes.next, Option.bind_eq_bind, Option.bind_eq_some_iff, guard_passed] at taken
  obtain ⟨_, same, taken⟩ := taken
  refine ⟨same, ?_⟩
  split at taken
  · rename_i refused
    exact .inl ⟨refused, (Option.some.inj taken).symm⟩
  · rename_i goes
    obtain ⟨bus, stepped, taken⟩ := Option.bind_eq_some_iff.mp taken
    exact .inr ⟨Bool.eq_false_iff.mpr goes, bus, stepped, (Option.some.inj taken).symm⟩

theorem processes_bus {s t : Processes P T K Id} {e : Processes.Event P T K Id}
    (reach : (machine T K Id).Reachable s.bus) (taken : s.next e = some t) :
    (machine T K Id).Reachable t.bus := by
  cases e with
  | signal p => exact Option.some.inj taken ▸ reach
  | act p e =>
    obtain ⟨_, ⟨_, rfl⟩ | ⟨_, bus, stepped, rfl⟩⟩ := processes_act taken
    · exact reach
    · exact reach.step trivial stepped

theorem zeroCopy_looks {s t : State T K Id} {e : Event T K Id} (taken : next s e = some t)
    {shutdown : Bool} (undisturbed : e.isRaw = true → shutdown = false)
    (goes : (e.looks && shutdown) = false) : ((zeroCopy s e).looks && shutdown) = false := by
  cases e with
  | allocate | copyIn | enqueue => rw [undisturbed rfl, Bool.and_false]
  | _ => exact goes

theorem zeroCopy_flag {s t : State T K Id} {e : Event T K Id} (taken : next s e = some t) :
    (zeroCopy s e).flag = e.flag := by
  cases e with
  | copyIn k =>
    obtain ⟨call, found, _⟩ := copyIn_eq taken
    rw [zeroCopy, found]
    rfl
  | enqueue k now =>
    obtain ⟨call, _, found, _⟩ := enqueue_eq taken
    rw [zeroCopy, found]
    rfl
  | _ => rfl

theorem zeroCopy_noRaw {s t : State T K Id} {e : Event T K Id} (taken : next s e = some t) :
    (zeroCopy s e).isRaw = false := by
  cases e with
  | copyIn k =>
    obtain ⟨call, found, _⟩ := copyIn_eq taken
    rw [zeroCopy, found]
    rfl
  | enqueue k now =>
    obtain ⟨call, _, found, _⟩ := enqueue_eq taken
    rw [zeroCopy, found]
    rfl
  | _ => rfl

structure Agree (s a : Processes P T K Id) : Prop where
  reach : (machine T K Id).Reachable s.bus
  bus : Mirrors s.bus a.bus
  shutdown : a.shutdown = s.shutdown

theorem Agree.next {s a t : Processes P T K Id} {e : Processes.Event P T K Id} (agree : Agree s a)
    (undisturbed : Undisturbed s e) (taken : s.next e = some t) :
    NoRaw a (s.zeroCopy e) ∧ ∃ b, a.next (s.zeroCopy e) = some b ∧ Agree t b := by
  have reach := processes_bus agree.reach taken
  cases e with
  | signal p =>
    obtain rfl := Option.some.inj taken
    refine ⟨trivial, _, rfl, reach, agree.bus, ?_⟩
    simp only [agree.shutdown]
  | act p e =>
    obtain ⟨calm, inside⟩ := undisturbed
    obtain ⟨same, ⟨refused, rfl⟩ | ⟨goes, bus, stepped, rfl⟩⟩ := processes_act taken
    · -- a refused `publishLoaned` is refused again
      obtain ⟨looks, down⟩ := Bool.and_eq_true_iff.mp refused
      have loaned : e.isRaw = false ∧ Bus.zeroCopy t.bus e = e := by
        cases e with
        | allocate => exact absurd (calm rfl) (by simp [down])
        | publishLoaned => exact ⟨rfl, rfl⟩
        | _ => exact absurd looks Bool.false_ne_true
      refine ⟨?_, a, ?_, agree⟩
      · rw [Processes.zeroCopy, loaned.2]
        exact loaned.1
      · rw [Processes.zeroCopy, loaned.2, Processes.next, agree.shutdown, if_pos refused,
          (guard_passed (u := ())).mpr same]
        rfl
    · obtain ⟨b, moved, mirrors⟩ :=
        next_zeroCopy (reachable_sound agree.reach) agree.bus inside stepped
      have looks := zeroCopy_looks stepped calm goes
      refine ⟨zeroCopy_noRaw stepped, { a with bus := b }, ?_, reach, mirrors, agree.shutdown⟩
      rw [Processes.zeroCopy, Processes.next, zeroCopy_flag stepped, agree.shutdown, looks, moved,
        (guard_passed (u := ())).mpr same]
      rfl

theorem Agree.run {s a t : Processes P T K Id} (agree : Agree s a)
    {schedule : List (Processes.Event P T K Id)} {history : List (Shared T Id)}
    (path : (processes P T K Id).watchedRun Undisturbed leaves s schedule = some (t, history)) :
    ∃ b, (processes P T K Id).watchedRun NoRaw leaves a (s.zeroCopies schedule) =
      some (b, history) ∧ Agree t b := by
  induction schedule generalizing s a history with
  | nil =>
    obtain ⟨rfl, rfl⟩ := Prod.mk.inj (Option.some.inj path)
    exact ⟨a, rfl, agree⟩
  | cons e rest ih =>
    simp only [Machine.watchedRun] at path
    split at path
    · rename_i undisturbed
      simp only [Option.bind_eq_bind, Option.bind_eq_some_iff, Option.some.injEq,
        Prod.mk.injEq] at path
      obtain ⟨u, taken, ⟨last, seen⟩, path, rfl, rfl⟩ := path
      have taken : s.next e = some u := taken
      obtain ⟨noRaw, c, moved, after⟩ := agree.next undisturbed taken
      obtain ⟨b, mapped, final⟩ := ih after path
      refine ⟨b, ?_, final⟩
      have moved : (processes P T K Id).next a (s.zeroCopy e) = some c := moved
      have shared : c.bus.shared = u.bus.shared := after.bus.shared
      simp only [Processes.zeroCopies, taken, Machine.watchedRun, if_pos noRaw, moved, mapped,
        Option.bind_eq_bind, Option.bind_some, leaves, shared]
    · contradiction

/-- Whatever run of the processes, no part of a `publishRaw` after its process was told to shut
down and no empty payload at the very end of the pool: with each `publishRaw` replaced by the three
calls, and all other steps as they were, it is a run again that leaves the same in the shared
memory at every step. -/
theorem zero_copy_agrees {schedule : List (Processes.Event P T K Id)} {s : Processes P T K Id}
    {history : List (Shared T Id)} (path : (processes P T K Id).watchedRun Undisturbed leaves .init
      schedule = some (s, history)) :
    ∃ a, (processes P T K Id).watchedRun NoRaw leaves .init (Processes.init.zeroCopies schedule) =
      some (a, history) ∧ a.bus.shared = s.bus.shared := by
  have agree : Agree (.init : Processes P T K Id) .init :=
    ⟨.start rfl, ⟨rfl, fun _ member => member, fun _ _ found => nomatch found⟩, rfl⟩
  obtain ⟨a, mapped, final⟩ := agree.run path
  exact ⟨a, mapped, final.bus.shared⟩

end

end

def oneMessage : List (Processes.Event Bool Bool Nat Nat) :=
  [.act true (.construct true 0), .act false (.allocate 0 true .string [104, 105, 0]),
    .act false (.copyIn 0), .act false (.enqueue 0 7), .signal false,
    .act true (.receive true 0 (.raw 64 0) false), .act true (.finish true 0)]

theorem zero_copy_agrees_once : ∃ (a : Processes Bool Bool Nat Nat)
    (history : List (Shared Bool Nat)), a.bus.receipts.map Receipt.copied =
      [⟨true, 0, Topic.Publication.header ⟨.string, 3, 0, 7⟩ 1, [104, 105, 0]⟩] ∧
    (processes Bool Bool Nat Nat).watchedRun NoRaw leaves .init
      (Processes.init.zeroCopies oneMessage) = some (a, history) := by
  have ends : ((processes Bool Bool Nat Nat).watchedRun Undisturbed leaves .init oneMessage).map
      (fun r => decide (r.1.bus.receipts.map Receipt.copied =
        [⟨true, 0, Topic.Publication.header ⟨.string, 3, 0, 7⟩ 1, [104, 105, 0]⟩])) =
      some true := by
    decide +kernel
  obtain ⟨⟨s, history⟩, path, received⟩ := Option.map_eq_some_iff.mp ends
  obtain ⟨a, mapped, same⟩ := zero_copy_agrees path
  have copied : a.bus.receipts.map Receipt.copied = s.bus.receipts.map Receipt.copied :=
    congrArg Shared.copied same
  exact ⟨a, history, copied.trans (of_decide_eq_true received), mapped⟩

/-- An empty message goes out at the very end of the pool, and its block on loan does not. -/
theorem empty_at_end : ∃ s : State Bool Nat Nat, (machine Bool Nat Nat).Reachable s ∧
    (next s (.enqueue 0 7)).isSome = true ∧ next s (zeroCopy s (.enqueue 0 7)) = none := by
  obtain ⟨s, reach, parts⟩ := Machine.reachable_of_check (machine Bool Nat Nat)
    (fun _ _ => True) rfl [.loanRaw poolSize, .allocate 0 true .custom [], .copyIn 0]
    (fun s => (next s (.enqueue 0 7)).isSome && (next s (zeroCopy s (.enqueue 0 7))).isNone)
    (by decide +kernel)
  obtain ⟨goes, fails⟩ := Bool.and_eq_true_iff.mp parts
  exact ⟨s, reach, goes, Option.isNone_iff_eq_none.mp fails⟩

end ComIpc.Bus
