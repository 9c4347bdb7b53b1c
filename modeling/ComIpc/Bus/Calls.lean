import ComIpc.Bus.Machine

/-! How the calls of `publishRaw` go on.

A call is never forgotten and what it was given never changes; new calls come from
allocations alone.
-/

set_option autoImplicit false

namespace ComIpc.Bus

open Semantics

section
variable {T : Type}

/-- Nothing about a call changes but its progress, and a finished call stays finished. -/
structure Later (before after : PublishCall T) : Prop where
  topic : after.topic = before.topic
  type : after.type = before.type
  data : after.data = before.data
  offset : after.offset = before.offset
  stage : ∀ seq, before.stage = .enqueued seq → after.stage = .enqueued seq

theorem Later.refl (call : PublishCall T) : Later call call := ⟨rfl, rfl, rfl, rfl, fun _ => id⟩

theorem Later.trans {first second third : PublishCall T} (before : Later first second)
    (after : Later second third) : Later first third where
  topic := after.topic.trans before.topic
  type := after.type.trans before.type
  data := after.data.trans before.data
  offset := after.offset.trans before.offset
  stage := fun seq queued => after.stage seq (before.stage seq queued)

variable {K Id : Type}

def Keeps (before after : K → Option (PublishCall T)) : Prop :=
  ∀ k call, before k = some call → ∃ call', after k = some call' ∧ Later call call'

theorem Keeps.refl (calls : K → Option (PublishCall T)) : Keeps calls calls :=
  fun _ call found => ⟨call, found, .refl call⟩

theorem Keeps.trans {first second third : K → Option (PublishCall T)}
    (before : Keeps first second) (after : Keeps second third) : Keeps first third := by
  intro k call found
  obtain ⟨call', found', later⟩ := before k call found
  obtain ⟨call'', found'', later'⟩ := after k call' found'
  exact ⟨call'', found'', later.trans later'⟩

theorem Keeps.damage (calls : K → Option (PublishCall T)) (offset size : Nat) :
    Keeps calls (damage calls offset size) := by
  intro k call found
  refine ⟨{ call with overwritten := _ }, by rw [Bus.damage, found, Option.map_some], ?_⟩
  exact ⟨rfl, rfl, rfl, rfl, fun _ => id⟩

theorem Keeps.update [DecidableEq K] {before after : K → Option (PublishCall T)} {k : K}
    {call' : PublishCall T} (keeps : Keeps before after)
    (later : ∀ call, before k = some call → Later call call') :
    Keeps before (Function.update after k (some call')) := by
  intro other call found
  by_cases self : other = k
  · subst self
    exact ⟨call', Function.update_self _ _ _, later call found⟩
  · obtain ⟨call', found', kept⟩ := keeps other call found
    exact ⟨call', by rwa [Function.update_of_ne self], kept⟩

structure GoOn (e : Event T K Id) (before after : K → Option (PublishCall T)) : Prop where
  keeps : Keeps before after
  begun : ∀ k call, after k = some call → before k = none →
    e = .allocate k call.topic call.type call.data

/-- No call publishes an empty payload. -/
def Event.Carries : Event T K Id → Prop
  | .allocate _ _ _ data => data ≠ []
  | _ => True

instance (e : Event T K Id) : Decidable e.Carries :=
  match e with
  | .allocate _ _ _ data => inferInstanceAs (Decidable (data ≠ []))
  | .copyIn _ | .enqueue _ _ | .loanRaw _ | .writeLoaned _ _ | .publishLoaned _ _ _ _ _
  | .attach _ | .construct _ _ | .destroy _ _ | .receive _ _ _ _ | .wake _ _ _ _
  | .finish _ _ => isTrue trivial

theorem GoOn.filled {e : Event T K Id} {before after : K → Option (PublishCall T)}
    (goOn : GoOn e before after) (carries : e.Carries)
    (filled : ∀ k call, before k = some call → call.data ≠ []) :
    ∀ k call, after k = some call → call.data ≠ [] := by
  intro k call found
  cases was : before k with
  | none =>
    rw [goOn.begun k call found was] at carries
    exact carries
  | some call' =>
    obtain ⟨call'', found', later⟩ := goOn.keeps k call' was
    obtain rfl := Option.some.inj (found.symm.trans found')
    rw [later.data]
    exact filled k call' was

theorem GoOn.same (e : Event T K Id) (calls : K → Option (PublishCall T)) :
    GoOn e calls calls where
  keeps := .refl calls
  begun := fun k call found absent => by simp [found] at absent

theorem GoOn.damage (e : Event T K Id) (calls : K → Option (PublishCall T)) (offset size : Nat) :
    GoOn e calls (damage calls offset size) where
  keeps := .damage calls offset size
  begun := fun k call found absent => by simp [Bus.damage, absent] at found

theorem GoOn.progress [DecidableEq K] {e : Event T K Id}
    {before after : K → Option (PublishCall T)} (goOn : GoOn e before after) {k : K}
    {call call' : PublishCall T} (found : before k = some call) (later : Later call call') :
    GoOn e before (Function.update after k (some call')) where
  keeps := by
    refine goOn.keeps.update fun other found' => ?_
    exact Option.some.inj (found.symm.trans found') ▸ later
  begun := by
    intro other call'' found' absent
    by_cases self : other = k
    · simp [self, found] at absent
    · rw [Function.update_of_ne self] at found'
      exact goOn.begun other call'' found' absent

section
variable [DecidableEq K]

theorem allocate_eq {s s' : State T K Id} {k : K} {t : T} {type : MessageType} {data : Bytes}
    (taken : s.allocate k t type data = some s') : s.calls k = none ∧ ∃ pool offset,
      (s.pool.allocate data.length).toOption = some (pool, offset) ∧ s' = { s with
        pool := pool
        calls := Function.update s.calls k
          (some ⟨t, type, data, offset, .allocated, false⟩) } := by
  simp only [State.allocate, Option.bind_eq_bind, Option.bind_eq_some_iff,
    Option.some.injEq, guard_passed] at taken
  obtain ⟨_, absent, ⟨pool, offset⟩, done, rfl⟩ := taken
  exact ⟨by simpa using absent, pool, offset, done, rfl⟩

theorem copyIn_eq {s s' : State T K Id} {k : K} (taken : s.copyIn k = some s') :
    ∃ call, s.calls k = some call ∧ call.stage = .allocated ∧ s' = { s with
      pool := { s.pool with data := s.pool.data.store call.offset.toNat call.data }
      calls := Function.update (damage s.calls call.offset.toNat call.data.length) k
        (some { call with stage := .copied }) } := by
  simp only [State.copyIn, Option.bind_eq_bind, Option.bind_eq_some_iff, guard_passed,
    Option.some.injEq] at taken
  obtain ⟨call, found, _, stage, rfl⟩ := taken
  exact ⟨call, found, stage, rfl⟩

end

section
variable [DecidableEq T] [DecidableEq Id]

theorem onTopic_eq {s s' : State T K Id} {t : T} {e : Topic.Event Id}
    (taken : s.onTopic t e = some s') : ∃ after, Topic.next (s.topics t) e = some after ∧
      s' = { s with topics := Function.update s.topics t after } := by
  simp only [State.onTopic, Option.bind_eq_bind, Option.bind_eq_some_iff,
    Option.some.injEq] at taken
  obtain ⟨after, stepped, rfl⟩ := taken
  exact ⟨after, stepped, rfl⟩

theorem onTopic_here {s s' : State T K Id} {t : T} {e : Topic.Event Id}
    (taken : s.onTopic t e = some s') :
    Topic.next (s.topics t) e = some (s'.topics t) ∧ s'.sources = s.sources := by
  obtain ⟨after, stepped, rfl⟩ := onTopic_eq taken
  exact ⟨by simpa using stepped, rfl⟩

theorem onTopic_calls {s s' : State T K Id} {t : T} {e : Topic.Event Id}
    (taken : s.onTopic t e = some s') : s'.calls = s.calls := by
  obtain ⟨_, _, rfl⟩ := onTopic_eq taken
  rfl

theorem publishLoaned_eq {s s' : State T K Id} {t : T} {type : MessageType}
    {position size : Nat} {now : Int64}
    (taken : s.publishLoaned t type position size now = some s') : ∃ offset after,
      (MemoryPool.getOffset position).toOption = some offset ∧
      Topic.next (s.topics t) (.publishLoaned ⟨type, size, offset, now⟩) = some after ∧
      s' = { s with
        topics := Function.update s.topics t after
        sources := Function.update s.sources t (s.sources t ++ [none]) } := by
  simp only [State.publishLoaned, Option.bind_eq_bind, Option.bind_eq_some_iff,
    Option.some.injEq] at taken
  obtain ⟨offset, got, _, onTopic, rfl⟩ := taken
  obtain ⟨after, stepped, rfl⟩ := onTopic_eq onTopic
  exact ⟨offset, after, got, stepped, rfl⟩

theorem finish_eq {s s' : State T K Id} {t : T} {i : Id} (taken : s.finish t i = some s') :
    ∃ sub after, (s.topics t).subscribers i = some sub ∧
      Topic.next (s.topics t) (.finish i) = some after ∧ s' = { s with
        topics := Function.update s.topics t after
        receipts := s.receipts ++ s.copyOut t i sub.phase } := by
  simp only [State.finish, Option.bind_eq_bind, Option.bind_eq_some_iff,
    Option.some.injEq] at taken
  obtain ⟨sub, alive, _, onTopic, rfl⟩ := taken
  obtain ⟨after, stepped, rfl⟩ := onTopic_eq onTopic
  exact ⟨sub, after, alive, stepped, rfl⟩

variable [DecidableEq K]

theorem enqueue_eq {s s' : State T K Id} {k : K} {now : Int64}
    (taken : s.enqueue k now = some s') : ∃ call after, s.calls k = some call ∧
      call.stage = .copied ∧
      Topic.next (s.topics call.topic)
        (.publishRaw ⟨call.type, call.data.length, call.offset, now⟩) = some after ∧
      s' = { s with
        topics := Function.update s.topics call.topic after
        calls := Function.update s.calls k
          (some { call with stage := .enqueued ((s.topics call.topic).shm.seq + 1) })
        sources := Function.update s.sources call.topic
          (s.sources call.topic ++ [some k]) } := by
  simp only [State.enqueue, Option.bind_eq_bind, Option.bind_eq_some_iff, guard_passed,
    Option.some.injEq] at taken
  obtain ⟨call, found, _, stage, _, onTopic, rfl⟩ := taken
  obtain ⟨after, stepped, rfl⟩ := onTopic_eq onTopic
  exact ⟨call, after, found, stage, stepped, rfl⟩

theorem next_calls {s s' : State T K Id} {e : Event T K Id} (taken : next s e = some s') :
    GoOn e s.calls s'.calls := by
  cases e with
  | allocate k t type data =>
    obtain ⟨absent, pool, offset, _, rfl⟩ := allocate_eq taken
    refine ⟨(Keeps.refl s.calls).update fun call found => by simp [absent] at found, ?_⟩
    intro other call found fresh
    by_cases self : other = k
    · subst self
      simp only [Function.update_self, Option.some.injEq] at found
      subst found
      rfl
    · simp [self, fresh] at found
  | copyIn k =>
    obtain ⟨call, found, stage, rfl⟩ := copyIn_eq taken
    exact (GoOn.damage _ s.calls _ _).progress found
      ⟨rfl, rfl, rfl, rfl, fun seq queued => by simp [stage] at queued⟩
  | enqueue k now =>
    obtain ⟨call, after, found, stage, _, rfl⟩ := enqueue_eq taken
    exact (GoOn.same _ s.calls).progress found
      ⟨rfl, rfl, rfl, rfl, fun seq queued => by simp [stage] at queued⟩
  | loanRaw size =>
    simp only [next, State.loanRaw, Option.bind_eq_bind, Option.bind_eq_some_iff,
      Option.some.injEq] at taken
    obtain ⟨_, _, rfl⟩ := taken
    exact .same _ s.calls
  | writeLoaned offset bytes =>
    simp only [next, State.writeLoaned, Option.bind_eq_bind, Option.bind_eq_some_iff,
      Option.some.injEq] at taken
    obtain ⟨_, _, rfl⟩ := taken
    exact .damage _ s.calls _ _
  | publishLoaned t type position size now =>
    obtain ⟨_, _, _, _, rfl⟩ := publishLoaned_eq taken
    exact .same _ s.calls
  | finish t i =>
    obtain ⟨_, _, _, _, rfl⟩ := finish_eq taken
    exact .same _ s.calls
  | attach | construct | destroy | receive | wake =>
    rw [onTopic_calls taken]
    exact .same _ s.calls

theorem next_receipts {s s' : State T K Id} {e : Event T K Id} (taken : next s e = some s')
    {r : Receipt T K Id} (member : r ∈ s'.receipts) : r ∈ s.receipts ∨
      ∃ t i sub, (s.topics t).subscribers i = some sub ∧ r ∈ s.copyOut t i sub.phase := by
  cases e with
  | finish t i =>
    obtain ⟨sub, _, alive, _, rfl⟩ := finish_eq taken
    rcases List.mem_append.mp member with old | new
    · exact .inl old
    · exact .inr ⟨t, i, sub, alive, new⟩
  | allocate =>
    obtain ⟨_, _, _, _, rfl⟩ := allocate_eq taken
    exact .inl member
  | copyIn =>
    obtain ⟨_, _, _, rfl⟩ := copyIn_eq taken
    exact .inl member
  | enqueue =>
    obtain ⟨_, _, _, _, _, rfl⟩ := enqueue_eq taken
    exact .inl member
  | loanRaw | writeLoaned =>
    simp only [next, State.loanRaw, State.writeLoaned, Option.bind_eq_bind,
      Option.bind_eq_some_iff, Option.some.injEq] at taken
    obtain ⟨_, _, rfl⟩ := taken
    exact .inl member
  | publishLoaned =>
    obtain ⟨_, _, _, _, rfl⟩ := publishLoaned_eq taken
    exact .inl member
  | attach | construct | destroy | receive | wake =>
    obtain ⟨_, _, rfl⟩ := onTopic_eq taken
    exact .inl member

end

end

end ComIpc.Bus
