import ComIpc.Bus.Calls
import ComIpc.Topic.Backlog

/-! Each topic of a bus runs its own machine.

A step of the bus takes at most one step inside one topic, so whatever holds in every
run of a topic without deaths holds of each topic of the bus.
-/

set_option autoImplicit false

namespace ComIpc.Bus

open Semantics

section
variable {T K Id : Type}

-- The bus has no deaths: a writer that dies would have to leave its block half-written too.

/-- The step inside a topic that a step of the bus takes. -/
def State.inTopic (s : State T K Id) : Event T K Id → Option (T × Topic.Event Id)
  | .enqueue k now => (s.calls k).map fun call =>
    (call.topic, .publishRaw ⟨call.type, call.data.length, call.offset, now⟩)
  | .publishLoaned t type position size now =>
    (MemoryPool.getOffset position).toOption.map fun offset =>
      (t, .publishLoaned ⟨type, size, offset, now⟩)
  | .attach t => some (t, .attach)
  | .construct t i => some (t, .construct i)
  | .destroy t i => some (t, .destroy i)
  | .receive t i call shutdown => some (t, .receive i call shutdown)
  | .wake t i cause shutdown => some (t, .wake i cause shutdown)
  | .finish t i => some (t, .finish i)
  | .allocate _ _ _ _ | .copyIn _ | .loanRaw _ | .writeLoaned _ _ => none

theorem inTopic_noDeath {s : State T K Id} {e : Event T K Id} {t : T} {e' : Topic.Event Id}
    (inside : s.inTopic e = some (t, e')) (topic : Topic.State Id) : Topic.NoDeath topic e' := by
  cases e with
  | allocate | copyIn | loanRaw | writeLoaned => cases inside
  | enqueue | publishLoaned =>
    obtain ⟨_, _, same⟩ := Option.map_eq_some_iff.mp inside
    cases same
    trivial
  | attach | construct | destroy | receive | wake | finish =>
    cases inside
    trivial

def Event.subscriber : Event T K Id → Option (T × Id)
  | .construct t i | .destroy t i | .receive t i _ _ | .wake t i _ _ | .finish t i => some (t, i)
  | .allocate _ _ _ _ | .copyIn _ | .enqueue _ _ | .loanRaw _ | .writeLoaned _ _
  | .publishLoaned _ _ _ _ _ | .attach _ => none

theorem inTopic_subscriber {s : State T K Id} {e : Event T K Id} {t : T} {e' : Topic.Event Id}
    (inside : s.inTopic e = some (t, e')) : e.subscriber = e'.subscriber.map fun i => (t, i) := by
  cases e with
  | allocate | copyIn | loanRaw | writeLoaned => cases inside
  | enqueue | publishLoaned =>
    obtain ⟨_, _, same⟩ := Option.map_eq_some_iff.mp inside
    cases same
    rfl
  | attach | construct | destroy | receive | wake | finish =>
    cases inside
    rfl

variable [DecidableEq T] [DecidableEq K] [DecidableEq Id]

theorem next_topics {s s' : State T K Id} {e : Event T K Id} (taken : next s e = some s') :
    (s.inTopic e = none ∧ s'.topics = s.topics) ∨ ∃ t e' after, s.inTopic e = some (t, e') ∧
      Topic.next (s.topics t) e' = some after ∧
      s'.topics = Function.update s.topics t after := by
  cases e with
  | allocate k t type data =>
    obtain ⟨_, _, _, _, rfl⟩ := allocate_eq taken
    exact .inl ⟨rfl, rfl⟩
  | copyIn k =>
    obtain ⟨_, _, _, rfl⟩ := copyIn_eq taken
    exact .inl ⟨rfl, rfl⟩
  | loanRaw | writeLoaned =>
    simp only [next, State.loanRaw, State.writeLoaned, Option.bind_eq_bind,
      Option.bind_eq_some_iff, Option.some.injEq] at taken
    obtain ⟨_, _, rfl⟩ := taken
    exact .inl ⟨rfl, rfl⟩
  | enqueue k now =>
    obtain ⟨call, after, found, _, stepped, rfl⟩ := enqueue_eq taken
    exact .inr ⟨_, _, after, by rw [State.inTopic, found, Option.map_some], stepped, rfl⟩
  | publishLoaned t type position size now =>
    obtain ⟨offset, after, got, stepped, rfl⟩ := publishLoaned_eq taken
    exact .inr ⟨_, _, after, by rw [State.inTopic, got, Option.map_some], stepped, rfl⟩
  | finish t i =>
    obtain ⟨_, after, _, stepped, rfl⟩ := finish_eq taken
    exact .inr ⟨t, _, after, rfl, stepped, rfl⟩
  | attach t | construct t | destroy t | receive t | wake t =>
    obtain ⟨after, stepped, rfl⟩ := onTopic_eq taken
    exact .inr ⟨t, _, after, rfl, stepped, rfl⟩

theorem next_elsewhere {s s' : State T K Id} {e : Event T K Id} {t : T}
    (elsewhere : ∀ e', s.inTopic e ≠ some (t, e')) (taken : next s e = some s') :
    s'.topics t = s.topics t ∧ s'.sources t = s.sources t := by
  constructor
  · rcases next_topics taken with ⟨_, same⟩ | ⟨u, e', after, inside, _, topics⟩
    · rw [same]
    · have other : t ≠ u := by
        rintro rfl
        exact elsewhere e' inside
      rw [topics, Function.update_of_ne other]
  · cases e with
    | allocate =>
      obtain ⟨_, _, _, _, rfl⟩ := allocate_eq taken
      rfl
    | copyIn =>
      obtain ⟨_, _, _, rfl⟩ := copyIn_eq taken
      rfl
    | loanRaw | writeLoaned =>
      simp only [next, State.loanRaw, State.writeLoaned, Option.bind_eq_bind,
        Option.bind_eq_some_iff, Option.some.injEq] at taken
      obtain ⟨_, _, rfl⟩ := taken
      rfl
    | enqueue k now =>
      obtain ⟨call, after, found, _, _, rfl⟩ := enqueue_eq taken
      have other : t ≠ call.topic := by
        rintro rfl
        exact elsewhere _ (by rw [State.inTopic, found, Option.map_some])
      simp only [Function.update_of_ne other]
    | publishLoaned u type position size now =>
      obtain ⟨offset, after, got, _, rfl⟩ := publishLoaned_eq taken
      have other : t ≠ u := by
        rintro rfl
        exact elsewhere _ (by rw [State.inTopic, got, Option.map_some])
      simp only [Function.update_of_ne other]
    | finish =>
      obtain ⟨_, _, _, _, rfl⟩ := finish_eq taken
      rfl
    | attach | construct | destroy | receive | wake =>
      obtain ⟨_, _, rfl⟩ := onTopic_eq taken
      rfl

theorem next_subscriber {s s' : State T K Id} {e : Event T K Id} (taken : next s e = some s')
    {t : T} {i : Id} (other : e.subscriber ≠ some (t, i)) :
    (s'.topics t).subscribers i = (s.topics t).subscribers i := by
  rcases next_topics taken with ⟨_, same⟩ | ⟨u, e', after, inside, stepped, topics⟩
  · rw [same]
  · by_cases self : t = u
    · subst self
      rw [topics, Function.update_self]
      apply Topic.next_frame stepped
      intro own
      rw [inTopic_subscriber inside, own] at other
      exact other rfl
    · rw [topics, Function.update_of_ne self]

theorem reachable_topic {s : State T K Id} (reach : (machine T K Id).Reachable s) (t : T) :
    (Topic.machine Id).ReachableWhen Topic.NoDeath (s.topics t) := by
  refine reach.invariant
    (fun s => (Topic.machine Id).ReachableWhen Topic.NoDeath (s.topics t)) ?_ ?_
  · rintro s rfl
    exact .start rfl
  · intro s e s' before _ taken
    rcases next_topics taken with ⟨_, same⟩ | ⟨u, e', after, inside, stepped, topics⟩
    · rwa [same]
    · rw [topics]
      by_cases self : t = u
      · subst self
        rw [Function.update_self]
        exact before.step (inTopic_noDeath inside _) stepped
      · rwa [Function.update_of_ne self]

theorem reachable_consistent {s : State T K Id} (reach : (machine T K Id).Reachable s) (t : T) :
    Topic.Consistent (s.topics t) :=
  Topic.reachable_consistent ((reachable_topic reach t).weaken Topic.NoDeath.completeOrUntouched)

end

end ComIpc.Bus
