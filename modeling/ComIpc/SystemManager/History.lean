import ComIpc.SystemManager.Registry

/-! What one call does to the registry, the name space and the handles.

`call_eq` replaces the exits of `createOrGetTopic` by the three outcomes that are
left when the system itself never fails; the lookup is by exact name, because the
registry stores at most 63 characters and compares 64.
-/

set_option autoImplicit false

namespace ComIpc.SystemManager

open Semantics

/-- Slots are terminated, the ones in use are active and the others still zero-filled. -/
structure WellRegistered (mgr : SystemManagerShm) : Prop where
  free : mgr.mutex = .unlocked
  terminated : ∀ i, (cstr (mgr.topics i).name).length < nameSize
  used : ∀ i : Fin maxTopics, i.val < mgr.topicCount → (mgr.topics i).active = true
  unused : ∀ i : Fin maxTopics, mgr.topicCount ≤ i.val → mgr.topics i = .zero

theorem WellRegistered.init : WellRegistered .init where
  free := rfl
  terminated := fun _ => show (cstr TopicInfo.zero.name).length < nameSize by decide
  used := fun i used => absurd used (Nat.not_lt_zero _)
  unused := fun _ _ => rfl

/-- A stored name is terminated before the 64 characters that are compared, so that all of the
other name is compared with it. -/
theorem strncmp_stored {stored : Bytes} (terminated : (cstr stored).length < nameSize)
    (name : CString) : strncmp stored name.bytes nameSize = 0 ↔ cstr stored = name.bytes := by
  rw [strncmp_eq_zero_iff, cstr_of_nulFree name.nulFree,
    List.take_of_length_le (Nat.le_of_lt terminated)]
  constructor
  · intro same
    have short : (name.bytes.take nameSize).length < nameSize := same ▸ terminated
    rw [List.length_take] at short
    rw [same, List.take_of_length_le (by omega)]
  · intro same
    rw [← same, List.take_of_length_le (Nat.le_of_lt terminated)]

theorem matchesTopic_iff {mgr : SystemManagerShm} (registered : WellRegistered mgr)
    (name : CString) (i : Fin maxTopics) :
    mgr.matchesTopic name i = true ↔
      i.val < mgr.topicCount ∧ cstr (mgr.topics i).name = name.bytes := by
  have compared := strncmp_stored (registered.terminated i) name
  simp only [SystemManagerShm.matchesTopic, Bool.and_eq_true, decide_eq_true_eq, compared]
  constructor
  · rintro ⟨⟨used, _⟩, same⟩
    exact ⟨used, same⟩
  · rintro ⟨used, same⟩
    exact ⟨⟨used, registered.used i used⟩, same⟩

theorem findTopic_isSome_iff {mgr : SystemManagerShm} (registered : WellRegistered mgr)
    (name : CString) : (mgr.findTopic name).isSome = true ↔
      ∃ i : Fin maxTopics, i.val < mgr.topicCount ∧ cstr (mgr.topics i).name = name.bytes := by
  simp only [SystemManagerShm.findTopic, List.find?_isSome, List.mem_finRange, true_and,
    matchesTopic_iff registered]

theorem findTopic_long {mgr : SystemManagerShm} (registered : WellRegistered mgr)
    {name : CString} (long : nameSize ≤ name.bytes.length) : mgr.findTopic name = none := by
  rw [← Option.not_isSome_iff_eq_none, findTopic_isSome_iff registered]
  rintro ⟨i, _, same⟩
  have := registered.terminated i
  rw [same] at this
  omega

theorem cstr_added {mgr : SystemManagerShm} (registered : WellRegistered mgr) (name : CString)
    (room : mgr.topicCount < maxTopics) :
    cstr (((mgr.addTopic name room).topics ⟨mgr.topicCount, room⟩).name) =
      name.bytes.take (nameSize - 1) := by
  simp only [SystemManagerShm.addTopic, Function.update_self]
  rw [registered.unused _ (Nat.le_refl _)]
  exact cstr_strncpy [] name.nulFree rfl

theorem added_other (mgr : SystemManagerShm) (name : CString)
    (room : mgr.topicCount < maxTopics) {i : Fin maxTopics} (other : i.val ≠ mgr.topicCount) :
    (mgr.addTopic name room).topics i = mgr.topics i := by
  simp only [SystemManagerShm.addTopic]
  exact Function.update_of_ne (fun same => other (congrArg Fin.val same)) _ _

theorem WellRegistered.add {mgr : SystemManagerShm} (registered : WellRegistered mgr)
    (name : CString) (room : mgr.topicCount < maxTopics) :
    WellRegistered (mgr.addTopic name room) where
  free := registered.free
  terminated := by
    intro i
    by_cases new : i.val = mgr.topicCount
    · have : i = ⟨mgr.topicCount, room⟩ := Fin.ext new
      rw [this, cstr_added registered, List.length_take]
      exact Nat.lt_of_le_of_lt (Nat.min_le_left _ _) (by decide)
    · rw [added_other mgr name room new]
      exact registered.terminated i
  used := by
    intro i used
    by_cases new : i.val = mgr.topicCount
    · have : i = ⟨mgr.topicCount, room⟩ := Fin.ext new
      simp [this, SystemManagerShm.addTopic]
    · rw [added_other mgr name room new]
      have : i.val < mgr.topicCount + 1 := used
      exact registered.used i (by omega)
  unused := by
    intro i unused
    have : mgr.topicCount + 1 ≤ i.val := unused
    have other : i.val ≠ mgr.topicCount := by omega
    rw [added_other mgr name room other]
    exact registered.unused i (by omega)

theorem findTopic_add {mgr : SystemManagerShm} (registered : WellRegistered mgr)
    (name other : CString) (room : mgr.topicCount < maxTopics) :
    ((mgr.addTopic name room).findTopic other).isSome = true ↔
      (mgr.findTopic other).isSome = true ∨
        name.bytes.take (nameSize - 1) = other.bytes := by
  rw [findTopic_isSome_iff (registered.add name room), findTopic_isSome_iff registered]
  constructor
  -- the new slot holds the truncated name; the others are as they were
  · rintro ⟨i, used, same⟩
    by_cases new : i.val = mgr.topicCount
    · have : i = ⟨mgr.topicCount, room⟩ := Fin.ext new
      rw [this, cstr_added registered] at same
      exact .inr same
    · rw [added_other mgr name room new] at same
      have : i.val < mgr.topicCount + 1 := used
      exact .inl ⟨i, by omega, same⟩
  · rintro (⟨i, used, same⟩ | same)
    · refine ⟨i, Nat.lt_succ_of_lt used, ?_⟩
      rw [added_other mgr name room (Nat.ne_of_lt used)]
      exact same
    · exact ⟨⟨mgr.topicCount, room⟩, Nat.lt_succ_self _, by rw [cstr_added registered, same]⟩

theorem create_unlink {Name : Type} [DecidableEq Name] (space : ShmSpace Name) (name : Name) :
    (space.unlink name).create name = space.create name := by
  simp [ShmSpace.create, ShmSpace.unlink]

theorem createOrReclaim_none (space : ShmSpace Bytes) (path : Bytes) :
    createOrReclaim .none space path = (space.create path, some space.count) := by
  unfold createOrReclaim
  cases found : space.linked path with
  | none => simp [Failures.none, ShmSpace.openExclusive, found]
  | some obj => simp [Failures.none, ShmSpace.openExclusive, found, create_unlink]

def outcome (s : History) (c : Call) : History :=
  if (s.mgr.findTopic c.name).isSome then
    { s with handles := s.handles ++
        ((s.space.linked (shmName c.name)).map fun obj => ⟨c.name, c.isPublisher, obj⟩).toList }
  else if room : c.isPublisher = true ∧ s.mgr.topicCount < maxTopics then
    ⟨s.mgr.addTopic c.name room.2, s.space.create (shmName c.name),
      s.handles ++ [⟨c.name, c.isPublisher, s.space.count⟩]⟩
  else s

theorem outcome_found {s : History} (c : Call) (obj : Nat)
    (present : (s.mgr.findTopic c.name).isSome = true)
    (linked : s.space.linked (shmName c.name) = some obj) :
    outcome s c = { s with handles := s.handles ++ [⟨c.name, c.isPublisher, obj⟩] } := by
  rw [outcome, if_pos present, linked]
  rfl

theorem outcome_new {s : History} {name : CString} (absent : (s.mgr.findTopic name).isSome = false)
    (room : s.mgr.topicCount < maxTopics) :
    outcome s ⟨name, true⟩ = ⟨s.mgr.addTopic name room, s.space.create (shmName name),
      s.handles ++ [⟨name, true, s.space.count⟩]⟩ := by
  simp [outcome, absent, room]

theorem outcome_rejected {s : History} {name : CString}
    (absent : (s.mgr.findTopic name).isSome = false) : outcome s ⟨name, false⟩ = s := by
  simp [outcome, absent]

theorem call_eq {s : History} (free : s.mgr.mutex = .unlocked) (c : Call) :
    call s c = some (outcome s c) := by
  obtain ⟨name, isPublisher⟩ := c
  have held := SystemManagerShm.lockRobust_free free
  have same := SystemManagerShm.unlock_taken free
  have looked : ({ s.mgr with mutex := .held } : SystemManagerShm).findTopic name =
      s.mgr.findTopic name := rfl
  simp only [call, createOrGetTopic, held, Option.bind_eq_bind, Option.bind_some, looked, outcome]
  cases s.mgr.findTopic name with
  | some i =>
    cases found : s.space.linked (shmName name) <;>
      simp [Failures.none, ShmSpace.openExisting, found, same]
  | none =>
    cases isPublisher with
    | false => simp [same]
    | true =>
      by_cases room : s.mgr.topicCount < maxTopics
      · have added : (SystemManagerShm.addTopic { s.mgr with mutex := .held } name room).unlock =
            s.mgr.addTopic name room := by
          simp [SystemManagerShm.addTopic, SystemManagerShm.unlock, ← free]
        simp only [Bool.true_eq_false, if_false, room, dite_true, createOrReclaim_none, added]
        simp [Failures.none]
      · simp [room, same]

theorem call_found {s : History} (free : s.mgr.mutex = .unlocked) (c : Call) {obj : Nat}
    (present : (s.mgr.findTopic c.name).isSome = true)
    (linked : s.space.linked (shmName c.name) = some obj) :
    call s c = some { s with handles := s.handles ++ [⟨c.name, c.isPublisher, obj⟩] } := by
  rw [call_eq free, outcome_found c obj present linked]

theorem findTopic_init (name : CString) :
    (SystemManagerShm.init.findTopic name).isSome = false := by
  rw [Bool.eq_false_iff, ne_eq, findTopic_isSome_iff .init]
  rintro ⟨i, used, _⟩
  exact absurd used (Nat.not_lt_zero _)

def History.fresh (space : ShmSpace Bytes) : History := ⟨.init, space, []⟩

theorem reachable_outcome {allowed : History → Call → Prop} {s : History}
    (reach : histories.ReachableWhen allowed s) (registered : WellRegistered s.mgr) (c : Call)
    (ok : allowed s c) : histories.ReachableWhen allowed (outcome s c) :=
  .step reach ok (call_eq registered.free c)

theorem reachable_published {allowed : History → Call → Prop} {s : History}
    (reach : histories.ReachableWhen allowed s) (registered : WellRegistered s.mgr) {name : CString}
    (absent : (s.mgr.findTopic name).isSome = false) (room : s.mgr.topicCount < maxTopics)
    (ok : allowed s ⟨name, true⟩) : histories.ReachableWhen allowed
      ⟨s.mgr.addTopic name room, s.space.create (shmName name),
        s.handles ++ [⟨name, true, s.space.count⟩]⟩ :=
  outcome_new absent room ▸ reachable_outcome reach registered ⟨name, true⟩ ok

theorem reachable_found {allowed : History → Call → Prop} {s : History}
    (reach : histories.ReachableWhen allowed s) (registered : WellRegistered s.mgr) (c : Call)
    {obj : Nat} (present : (s.mgr.findTopic c.name).isSome = true)
    (linked : s.space.linked (shmName c.name) = some obj) (ok : allowed s c) :
    histories.ReachableWhen allowed
      { s with handles := s.handles ++ [⟨c.name, c.isPublisher, obj⟩] } :=
  .step reach ok (call_found registered.free c present linked)

theorem reachable_registered {allowed : History → Call → Prop} {s : History}
    (reach : histories.ReachableWhen allowed s) : WellRegistered s.mgr := by
  refine reach.invariant (fun s => WellRegistered s.mgr) ?_ ?_
  · rintro s ⟨empty, _⟩
    exact empty ▸ .init
  · intro s c t registered _ taken
    have taken : call s c = some t := taken
    rw [call_eq registered.free] at taken
    obtain rfl := Option.some.inj taken
    unfold outcome
    split
    · exact registered
    · split
      · rename_i room
        exact registered.add c.name room.2
      · exact registered

end ComIpc.SystemManager
