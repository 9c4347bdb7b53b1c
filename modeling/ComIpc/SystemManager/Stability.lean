import ComIpc.SystemManager.Isolation

/-! When a published topic keeps being found.

The registry stores 63 characters of a name and compares 64, so a longer name is
absent on its next call and its live object is taken for an orphan. A shorter name
loses its object only to a name with the same rewriting.
-/

set_option autoImplicit false

namespace ComIpc.SystemManager

open Semantics

/-- After a publisher's handle was returned, the next call for its name, in either role,
returns the same object and leaves the registry as it is. -/
def Stable (name : CString) (s : History) : Prop :=
  ∀ h ∈ s.handles, h.name = name → h.isPublisher = true → ∀ isPublisher,
    ∃ t, call s ⟨name, isPublisher⟩ = some t ∧
      t.handles = s.handles ++ [⟨name, isPublisher, h.object⟩] ∧
      t.mgr.topicCount = s.mgr.topicCount ∧ t.mgr.topics = s.mgr.topics

def Among (name : CString) (others : Set CString) (_ : History) (c : Call) : Prop :=
  c.name = name ∨ c.name ∈ others

def Registered (name : CString) (s : History) : Prop :=
  ∀ h ∈ s.handles, h.name = name → h.isPublisher = true →
    (s.mgr.findTopic name).isSome = true ∧ s.space.linked (shmName name) = some h.object

theorem Registered.stable {name : CString} {s : History} (free : s.mgr.mutex = .unlocked)
    (registered : Registered name s) : Stable name s := by
  intro h member same publisher isPublisher
  obtain ⟨present, linked⟩ := registered h member same publisher
  exact ⟨_, call_found free ⟨name, isPublisher⟩ present linked, rfl, rfl, rfl⟩

section Kept

variable {name : CString} {s : History} (well : WellRegistered s.mgr)
  (registered : Registered name s)

include registered in
theorem Registered.reuse {c : Call} {obj : Nat} (present : (s.mgr.findTopic c.name).isSome = true)
    (linked : s.space.linked (shmName c.name) = some obj) :
    Registered name { s with handles := s.handles ++ [⟨c.name, c.isPublisher, obj⟩] } := by
  intro h member same publisher
  rcases List.mem_append.mp member with old | new
  · exact registered h old same publisher
  · obtain rfl := List.mem_singleton.mp new
    obtain rfl : c.name = name := same
    exact ⟨present, linked⟩

include well registered in
theorem Registered.create {other : CString} (short : name.bytes.length < nameSize)
    (apart : other ≠ name → shmName other ≠ shmName name)
    (absent : (s.mgr.findTopic other).isSome = false) (room : s.mgr.topicCount < maxTopics) :
    Registered name ⟨s.mgr.addTopic other room, s.space.create (shmName other),
      s.handles ++ [⟨other, true, s.space.count⟩]⟩ := by
  intro h member same publisher
  by_cases equal : other = name
  · subst equal
    have whole : other.bytes.take (nameSize - 1) = other.bytes :=
      List.take_of_length_le (by omega)
    refine ⟨(findTopic_add well other other room).mpr (.inr whole), ?_⟩
    rcases List.mem_append.mp member with old | new
    · -- an earlier publisher's name would have been found
      have present := (registered h old same publisher).1
      simp [absent] at present
    · obtain rfl := List.mem_singleton.mp new
      simp
  · rcases List.mem_append.mp member with old | new
    · obtain ⟨present, linked⟩ := registered h old same publisher
      refine ⟨(findTopic_add well other name room).mpr (.inl present), ?_⟩
      rw [ShmSpace.linked_create, if_neg (fun same => apart equal same.symm), linked]
    · obtain rfl := List.mem_singleton.mp new
      exact absurd same equal

end Kept

theorem reachable_stable {name : CString} {others : Set CString}
    (short : name.bytes.length < nameSize)
    (apart : ∀ other ∈ others, other ≠ name → shmName other ≠ shmName name) {s : History}
    (reach : histories.ReachableWhen (Among name others) s) : Registered name s := by
  refine reach.invariant_of (Registered name) ?_ ?_
  · rintro s ⟨_, empty⟩ h member
    simp [empty] at member
  · intro s c t reach registered among taken
    have taken : call s c = some t := taken
    have well := reachable_registered reach
    rw [call_eq well.free] at taken
    obtain rfl := Option.some.inj taken
    have distinct : c.name ≠ name → shmName c.name ≠ shmName name := by
      intro other
      exact apart _ (among.resolve_left other) other
    unfold outcome
    split
    · rename_i present
      cases linked : s.space.linked (shmName c.name) with
      | none => simpa using registered
      | some obj => exact registered.reuse present linked
    · rename_i absent
      split
      · rename_i room
        obtain ⟨other, isPublisher⟩ := c
        obtain rfl : isPublisher = true := room.1
        exact Registered.create well registered short distinct (by simpa using absent) room.2
      · exact registered

section Lost

variable (name : CString) (others : Set CString) (space : ShmSpace Bytes)

include space in
theorem long_unstable (long : nameSize ≤ name.bytes.length) :
    ∃ s, histories.ReachableWhen (Among name others) s ∧ ¬ Stable name s := by
  refine ⟨_, published_once space (.inl rfl), ?_⟩
  intro stable
  have registered := WellRegistered.init.add name (by decide)
  have absent := findTopic_long registered long
  obtain ⟨t, taken, returned, _⟩ := stable ⟨name, true, space.count⟩ (by simp) rfl rfl false
  rw [call_eq registered.free, outcome_rejected (by simp [absent])] at taken
  obtain rfl := Option.some.inj taken
  simp at returned

include space in
theorem replaced_unstable {other : CString} (member : other ∈ others) (different : other ≠ name)
    (same : shmName other = shmName name) (short : name.bytes.length < nameSize) :
    ∃ s, histories.ReachableWhen (Among name others) s ∧ ¬ Stable name s := by
  obtain ⟨mgr, registered, present, reach⟩ := published_twice (Among name others) space
    different.symm short (fun _ => .inl rfl) (fun _ => .inr member)
  refine ⟨_, reach, ?_⟩
  intro stable
  obtain ⟨t, taken, returned, _⟩ := stable ⟨name, true, space.count⟩ (by simp) rfl rfl true
  have linked := relinked same.symm space
  obtain rfl := Option.some.inj (taken.symm.trans
    (call_found (s := ⟨mgr, _, _⟩) registered.free ⟨name, true⟩ present linked))
  simp at returned

end Lost

/-- A published name stays found in every history with some other names exactly when the
registry can hold all of it and none of the others is rewritten to the same object name. -/
theorem stable_iff (name : CString) (others : Set CString) :
    (∀ s, histories.ReachableWhen (Among name others) s → Stable name s) ↔
      name.bytes.length < nameSize ∧
        ∀ other ∈ others, other ≠ name → shmName other ≠ shmName name := by
  constructor
  · intro stable
    have short : name.bytes.length < nameSize := by
      by_contra long
      obtain ⟨s, reach, lost⟩ := long_unstable name others .empty (Nat.not_lt.mp long)
      exact lost (stable s reach)
    refine ⟨short, ?_⟩
    intro other member different same
    obtain ⟨s, reach, lost⟩ := replaced_unstable name others .empty member different same short
    exact lost (stable s reach)
  · rintro ⟨short, apart⟩ s reach
    exact (reachable_stable short apart reach).stable (reachable_registered reach).free

def longName : CString := ⟨List.replicate 64 0x61, by decide⟩

/-- The second lookup of a name with 64 characters fails for a subscriber. -/
theorem long_name_lost :
    ∃ s, histories.Reachable s ∧ ¬ Stable longName s := by
  obtain ⟨s, reach, lost⟩ := long_unstable longName ∅ .empty (by decide)
  exact ⟨s, reach.weaken fun _ _ _ => trivial, lost⟩

end ComIpc.SystemManager
