import ComIpc.Bus.Laps
import ComIpc.Semantics.Until

/-! What is kept of a block inside its lap.

A write in time goes into a block that the pool has not come round to, so it can only
touch the blocks that the pool has come round to already.
-/

set_option autoImplicit false

namespace ComIpc.Bus

open Semantics

section
variable {T K Id : Type}

/-- Nobody has written over a call that is inside its lap. -/
def Clean (s : Lapping T K Id) : Prop :=
  ∀ k call, s.bus.calls k = some call → s.Unlapped (s.block k) → call.overwritten = false

theorem Clean.damage {s : Lapping T K Id} (clean : Clean s) {start length : Nat} {k : K}
    {call : PublishCall T}
    (apart : ∀ before, s.bus.calls k = some before → s.Unlapped (s.block k) →
      ¬ ByteMemory.Overlap start length before.offset.toNat before.data.length)
    (found : Bus.damage s.bus.calls start length k = some call)
    (unlapped : s.Unlapped (s.block k)) :
    call.overwritten = false := by
  obtain ⟨before, was, rfl⟩ := Option.map_eq_some_iff.mp found
  simp [clean k before was unlapped, apart before was unlapped]

variable [DecidableEq K] [DecidableEq T] [DecidableEq Id]

theorem next_block {s : Lapping T K Id} (laid : Laid s) {e : Event T K Id} (inTime : InTime s e)
    {bus : State T K Id} (taken : Bus.next s.bus e = some bus) {block size : Nat} {offset : UInt32}
    (held : s.At block offset size) (other : ¬ Writes s block e) (unlapped : s.Unlapped block) :
    bus.pool.data.load offset.toNat size = s.bus.pool.data.load offset.toNat size := by
  cases e with
  | copyIn k =>
    obtain ⟨call, found, _, rfl⟩ := copyIn_eq taken
    exact ByteMemory.load_store_apart _ ((laid.calls k call found).apart held other inTime unlapped
      ⟨Nat.le_refl _, Nat.le_refl _⟩)
  | writeLoaned start bytes =>
    simp only [Bus.next, State.writeLoaned, Option.bind_eq_bind, Option.bind_eq_some_iff,
      Option.some.injEq] at taken
    obtain ⟨_, _, rfl⟩ := taken
    obtain ⟨loan, member, early, inside⟩ := inTime
    have distinct : loan.2 ≠ block := fun same => other ⟨loan, member, same, inside⟩
    exact ByteMemory.load_store_apart _ ((laid.loans loan member).apart held distinct early unlapped
      inside)
  | allocate =>
    obtain ⟨_, _, _, done, rfl⟩ := allocate_eq taken
    rw [(MemoryPool.allocate_fits laid.bounded done).2.2]
  | loanRaw =>
    simp only [Bus.next, State.loanRaw, Option.bind_eq_bind, Option.bind_eq_some_iff,
      Option.some.injEq] at taken
    obtain ⟨⟨_, _⟩, done, rfl⟩ := taken
    rw [(MemoryPool.allocate_fits laid.bounded done).2.2]
  | enqueue =>
    obtain ⟨_, _, _, _, _, rfl⟩ := enqueue_eq taken
    rfl
  | publishLoaned =>
    obtain ⟨_, _, _, _, rfl⟩ := publishLoaned_eq taken
    rfl
  | finish =>
    obtain ⟨_, _, _, _, rfl⟩ := finish_eq taken
    rfl
  | attach | construct | destroy | receive | wake =>
    obtain ⟨_, _, rfl⟩ := onTopic_eq taken
    rfl

/-- A block keeps what its holder wrote last, through any steps of the other writers and
readers, until the pool has come round to it. -/
theorem block_kept {s t : Lapping T K Id} (reach : (lapping T K Id).Reachable s) {block size : Nat}
    {offset : UInt32} (held : s.At block offset size)
    (path : (lapping T K Id).Before InTime (fun u e => Writes u block e) s t)
    (unlapped : t.Unlapped block) :
    t.bus.pool.data.load offset.toNat size = s.bus.pool.data.load offset.toNat size := by
  have along : Laid t ∧ t.At block offset size ∧ (t.Unlapped block →
      t.bus.pool.data.load offset.toNat size = s.bus.pool.data.load offset.toNat size) := by
    refine path.kept (fun u => Laid u ∧ u.At block offset size ∧ (u.Unlapped block →
      u.bus.pool.data.load offset.toNat size = s.bus.pool.data.load offset.toNat size)) ?_
      ⟨reachable_laid reach, held, fun _ => rfl⟩
    rintro u e v ⟨laid, here, same⟩ inTime other taken
    obtain ⟨bus, stepped, rfl⟩ := lapping_next taken
    refine ⟨laid.next stepped, here.note bus e, fun unlapped => ?_⟩
    -- the lap only gets shorter, so the block was inside it before the step too
    have before := Lapping.unlapped_note unlapped
    rw [note_bus, next_block laid inTime stepped here other before]
    exact same before
  exact along.2.2 unlapped

theorem Clean.next {s : Lapping T K Id} (laid : Laid s) (clean : Clean s) {e : Event T K Id}
    (inTime : InTime s e) {bus : State T K Id} (taken : Bus.next s.bus e = some bus) :
    Clean (s.note bus e) := by
  cases e with
  | allocate j t type data =>
    obtain ⟨_, _, _, _, rfl⟩ := allocate_eq taken
    intro k call found unlapped
    simp only [Lapping.note] at found unlapped
    by_cases self : k = j
    · subst self
      simp only [Function.update_self, Option.some.injEq] at found
      subst found
      rfl
    · rw [Function.update_of_ne self] at found unlapped
      exact clean k call found unlapped.before
  | copyIn j =>
    obtain ⟨writer, known, _, rfl⟩ := copyIn_eq taken
    intro k call found unlapped
    simp only [Lapping.note] at found
    by_cases self : k = j
    · subst self
      simp only [Function.update_self, Option.some.injEq] at found
      subst found
      exact clean k writer known unlapped
    · rw [Function.update_of_ne self] at found
      refine clean.damage ?_ found unlapped
      intro before was unlapped
      have other : s.block j ≠ s.block k := fun same =>
        self (laid.alone k before j writer was known same.symm)
      exact (laid.calls j writer known).apart (laid.calls k before was) other inTime unlapped
        ⟨Nat.le_refl _, Nat.le_refl _⟩
  | writeLoaned start bytes =>
    simp only [Bus.next, State.writeLoaned, Option.bind_eq_bind, Option.bind_eq_some_iff,
      Option.some.injEq] at taken
    obtain ⟨_, _, rfl⟩ := taken
    obtain ⟨loan, member, early, inside⟩ := inTime
    intro k call found unlapped
    refine clean.damage ?_ found unlapped
    intro before was unlapped
    have other : loan.2 ≠ s.block k := by
      intro same
      exact laid.apart k before was (same ▸ (List.of_mem_zip member).2)
    exact (laid.loans loan member).apart (laid.calls k before was) other early unlapped inside
  | enqueue j now =>
    obtain ⟨writer, after, known, _, _, rfl⟩ := enqueue_eq taken
    intro k call found unlapped
    simp only [Lapping.note] at found
    by_cases self : k = j
    · subst self
      simp only [Function.update_self, Option.some.injEq] at found
      subst found
      exact clean k writer known unlapped
    · rw [Function.update_of_ne self] at found
      exact clean k call found unlapped
  | loanRaw =>
    simp only [Bus.next, State.loanRaw, Option.bind_eq_bind, Option.bind_eq_some_iff,
      Option.some.injEq] at taken
    obtain ⟨_, _, rfl⟩ := taken
    exact fun k call found unlapped => clean k call found (Lapping.unlapped_note unlapped)
  | publishLoaned =>
    obtain ⟨_, _, _, _, rfl⟩ := publishLoaned_eq taken
    exact clean
  | finish =>
    obtain ⟨_, _, _, _, rfl⟩ := finish_eq taken
    exact clean
  | attach | construct | destroy | receive | wake =>
    obtain ⟨_, _, rfl⟩ := onTopic_eq taken
    exact clean

theorem reachable_clean {s : Lapping T K Id} (reach : (lapping T K Id).ReachableWhen InTime s) :
    Clean s := by
  refine reach.invariant_of Clean ?_ ?_
  · rintro s rfl
    exact fun k call found => nomatch found
  · intro s e t before clean inTime taken
    obtain ⟨bus, stepped, rfl⟩ := lapping_next taken
    exact clean.next (reachable_laid before) inTime stepped

/-- While all writes come in time, a raw receive that copies its payload out before the pool
has come round to the block returns the payload of the call it names. -/
theorem delivered_within_lap {s : Lapping T K Id}
    (reach : (lapping T K Id).ReachableWhen InTime s) {t : T} {i : Id} {bus : State T K Id}
    (taken : Bus.next s.bus (.finish t i) = some bus) :
    ∀ r ∈ bus.receipts, r ∈ s.bus.receipts ∨
      ∀ k, r.source = some k → s.Unlapped (s.block k) → FromCall bus.calls r k := by
  obtain ⟨sub, after, alive, _, rfl⟩ := finish_eq taken
  have running := lapping_bus reach
  have follows := (reachable_consistent running t).follows i sub alive
  intro r member
  rcases List.mem_append.mp member with old | new
  · exact .inl old
  · refine .inr fun k source unlapped => ?_
    have sound := reachable_sound running
    obtain ⟨call, found, _, _⟩ := sound.copied follows new source
    have intact : r.intact = true := by
      rw [(mem_copyOut new).2.1, source]
      simp [State.intact, found, reachable_clean reach k call found unlapped]
    exact sound.copyOut follows r new k source intact

end

def writtenFirst : Lapping Bool Nat Nat :=
  ((lapping Bool Nat Nat).run ⟨.init, [], fun _ => 0, []⟩
    [.allocate 0 false .custom [1, 2], .copyIn 0]).getD ⟨.init, [], fun _ => 0, []⟩

theorem block_kept_first : ∃ t : Lapping Bool Nat Nat, t.blocks = [8, 8, 8] ∧
    t.bus.pool.data.load 0 2 = writtenFirst.bus.pool.data.load 0 2 := by
  obtain ⟨t, path, blocks⟩ : ∃ t, (lapping Bool Nat Nat).Before InTime (fun u e => Writes u 0 e)
      writtenFirst t ∧ decide (t.blocks = [8, 8, 8]) = true :=
    Machine.Before.check [.allocate 1 true .pose [3], .loanRaw 4, .copyIn 1,
      .writeLoaned 16 [4, 5], .enqueue 0 9] _ (by decide +kernel)
  have blocks := of_decide_eq_true blocks
  have start : (lapping Bool Nat Nat).Reachable ⟨.init, [], fun _ => 0, []⟩ := .start rfl
  have held : writtenFirst.At 0 0 2 := ⟨by decide +kernel, by decide +kernel⟩
  refine ⟨t, blocks, ?_⟩
  exact block_kept (start.getD _ _ (by decide +kernel)) held path
    (by rw [Lapping.Unlapped, blocks]; decide)

theorem delivered_within_lap_once : ∃ (s : Lapping Bool Nat Nat) (bus : State Bool Nat Nat),
    bus.receipts.map Receipt.payload = [[1, 2]] ∧ ∀ r ∈ bus.receipts, r ∈ s.bus.receipts ∨
      ∀ k, r.source = some k → s.Unlapped (s.block k) → FromCall bus.calls r k := by
  obtain ⟨s, reach, copied⟩ := Machine.reachable_of_check (lapping Bool Nat Nat) InTime rfl
    [.construct false 0, .allocate 0 false .custom [1, 2], .copyIn 0, .enqueue 0 5,
      .receive false 0 (.raw 64 0) false]
    (fun s => decide ((Bus.next s.bus (.finish false 0)).map
      (fun bus => bus.receipts.map Receipt.payload) = some [[1, 2]])) (by decide +kernel)
  obtain ⟨bus, taken, payload⟩ := Option.map_eq_some_iff.mp (of_decide_eq_true copied)
  exact ⟨s, bus, payload, delivered_within_lap reach taken⟩

end ComIpc.Bus
