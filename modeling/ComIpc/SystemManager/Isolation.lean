import ComIpc.SystemManager.History

/-! When the handles of two topic names refer to different objects.

Every handle refers to an object created under the rewritten name of its topic, so
only names that the rewriting identifies can meet. They do meet as soon as one of
them is found in the registry after the other has replaced its object.
-/

set_option autoImplicit false

namespace ComIpc.SystemManager

open Semantics

/-- No handle of one name refers to the object of a handle of the other. -/
def Isolated (first second : CString) (s : History) : Prop :=
  ∀ h ∈ s.handles, ∀ k ∈ s.handles, h.name = first → k.name = second → h.object ≠ k.object

instance (first second : CString) (s : History) : Decidable (Isolated first second s) :=
  inferInstanceAs (Decidable (∀ h ∈ s.handles, ∀ k ∈ s.handles, _ → _ → _))

theorem shmName_length (name : CString) :
    (shmName name).length = topicPrefix.length + name.bytes.length := by
  have kept : ∀ chars : Bytes, (rewriteSlashes chars).length = chars.length := by
    intro chars
    cases chars <;> simp [rewriteSlashes]
  rw [shmName, kept, List.length_append]

theorem length_of_shmName {first second : CString} (same : shmName first = shmName second) :
    first.bytes.length = second.bytes.length := by
  have := congrArg List.length same
  rw [shmName_length, shmName_length] at this
  omega

/-- Handles were created under the rewritten name, and an object of a name too long to be
found is shared only by its creator. -/
structure Owned (s : History) : Prop where
  born : ∀ h ∈ s.handles, h.object < s.space.count ∧ s.space.birthName h.object = shmName h.name
  unshared : ∀ k ∈ s.handles, nameSize ≤ k.name.bytes.length →
    ∀ h ∈ s.handles, h.object = k.object → h.name = k.name

theorem Owned.reuse {s : History} (owned : Owned s) {name : CString} {obj : Nat}
    (linked : s.space.linked (shmName name) = some obj) (short : name.bytes.length < nameSize)
    (isPublisher : Bool) : Owned { s with handles := s.handles ++ [⟨name, isPublisher, obj⟩] } := by
  have object := s.space.wellFormed _ _ linked
  constructor
  · intro h member
    rcases List.mem_append.mp member with old | new
    · exact owned.born h old
    · obtain rfl := List.mem_singleton.mp new
      exact object
  · intro k memberK long h memberH same
    rcases List.mem_append.mp memberK with oldK | newK
    · rcases List.mem_append.mp memberH with oldH | newH
      · exact owned.unshared k oldK long h oldH same
      · -- the owner's name would have the length of the found one
        obtain rfl := List.mem_singleton.mp newH
        have born := (owned.born k oldK).2
        rw [← same, object.2] at born
        have := length_of_shmName born
        omega
    · obtain rfl := List.mem_singleton.mp newK
      exact absurd long (Nat.not_le.mpr short)

theorem Owned.create {s : History} (owned : Owned s) (mgr : SystemManagerShm) (name : CString)
    (isPublisher : Bool) :
    Owned ⟨mgr, s.space.create (shmName name),
      s.handles ++ [⟨name, isPublisher, s.space.count⟩]⟩ := by
  constructor
  · intro h member
    rcases List.mem_append.mp member with old | new
    · obtain ⟨exists_, born⟩ := owned.born h old
      exact ⟨Nat.lt_succ_of_lt exists_, by rw [ShmSpace.birthName_create_old _ _ exists_, born]⟩
    · obtain rfl := List.mem_singleton.mp new
      exact ⟨Nat.lt_succ_self _, ShmSpace.birthName_create_new _ _⟩
  · intro k memberK long h memberH same
    rcases List.mem_append.mp memberK with oldK | newK <;>
      rcases List.mem_append.mp memberH with oldH | newH
    · exact owned.unshared k oldK long h oldH same
    · obtain rfl := List.mem_singleton.mp newH
      exact absurd same (Nat.ne_of_gt (owned.born k oldK).1)
    · obtain rfl := List.mem_singleton.mp newK
      exact absurd same (Nat.ne_of_lt (owned.born h oldH).1)
    · rw [List.mem_singleton.mp newK, List.mem_singleton.mp newH]

theorem Owned.outcome {s : History} (registered : WellRegistered s.mgr) (owned : Owned s)
    (c : Call) : Owned (outcome s c) := by
  unfold SystemManager.outcome
  split
  · rename_i found
    cases linked : s.space.linked (shmName c.name) with
    | none => simpa using owned
    | some obj =>
      refine owned.reuse linked ?_ c.isPublisher
      -- only names short enough to be stored whole are ever found
      by_contra long
      simp [findTopic_long registered (Nat.not_lt.mp long)] at found
  · split
    · exact owned.create _ c.name c.isPublisher
    · exact owned

theorem reachable_owned {s : History} (reach : histories.Reachable s) : Owned s := by
  refine reach.invariant_of Owned ?_ ?_
  · rintro s ⟨_, empty⟩
    constructor <;> simp [empty]
  · intro s c t reach owned _ taken
    have taken : call s c = some t := taken
    have registered := reachable_registered reach
    rw [call_eq registered.free] at taken
    exact Option.some.inj taken ▸ owned.outcome registered c

theorem published_once {allowed : History → Call → Prop} (space : ShmSpace Bytes) {name : CString}
    (ok : allowed (.fresh space) ⟨name, true⟩) : histories.ReachableWhen allowed
      ⟨SystemManagerShm.init.addTopic name (by decide), space.create (shmName name),
        [⟨name, true, space.count⟩]⟩ := by
  have start : histories.ReachableWhen allowed (.fresh space) := .start ⟨rfl, rfl⟩
  exact reachable_published start .init (findTopic_init name) (show 0 < maxTopics by decide) ok

theorem published_twice (allowed : History → Call → Prop) (space : ShmSpace Bytes)
    {first second : CString} (different : first ≠ second) (short : first.bytes.length < nameSize)
    (okFirst : ∀ s, allowed s ⟨first, true⟩) (okSecond : ∀ s, allowed s ⟨second, true⟩) :
    ∃ mgr, WellRegistered mgr ∧ (mgr.findTopic first).isSome = true ∧
      histories.ReachableWhen allowed
        ⟨mgr, (space.create (shmName first)).create (shmName second),
          [⟨first, true, space.count⟩, ⟨second, true, space.count + 1⟩]⟩ := by
  have whole : first.bytes.take (nameSize - 1) = first.bytes :=
    List.take_of_length_le (by omega)
  have registered := WellRegistered.init.add first (by decide)
  have again : (SystemManagerShm.init.addTopic first (by decide)).topicCount < maxTopics :=
    show (1 : Nat) < maxTopics by decide
  have absent : ((SystemManagerShm.init.addTopic first (by decide)).findTopic second).isSome =
      false := by
    rw [Bool.eq_false_iff, ne_eq, findTopic_add .init, findTopic_init, whole]
    simpa using fun equal => different (CString.ext equal)
  have reach := published_once space (okFirst (.fresh space))
  refine ⟨_, registered.add second again, ?_,
    reachable_published reach registered absent again (okSecond _)⟩
  rw [findTopic_add registered, findTopic_add .init]
  exact .inl (.inr whole)

theorem relinked {first second : CString} (same : shmName first = shmName second)
    (space : ShmSpace Bytes) :
    ((space.create (shmName first)).create (shmName second)).linked (shmName first) =
      some (space.count + 1) := by
  simp [same]

theorem collision {first second : CString} (different : first ≠ second)
    (same : shmName first = shmName second) (short : first.bytes.length < nameSize)
    (space : ShmSpace Bytes) :
    ∃ s, histories.Reachable s ∧ ¬ Isolated first second s := by
  obtain ⟨mgr, registered, present, reach⟩ :=
    published_twice (fun _ _ => True) space different short (fun _ => trivial) (fun _ => trivial)
  -- the second publisher has replaced the first one's object, and the first name, still on
  -- record, now leads to the new one
  have linked := relinked same space
  have looked := reachable_found reach registered ⟨first, false⟩ present linked trivial
  refine ⟨_, looked, ?_⟩
  intro isolated
  exact isolated ⟨first, false, space.count + 1⟩ (by simp)
    ⟨second, true, space.count + 1⟩ (by simp) rfl rfl rfl

/-- Two topics are isolated in every history exactly when their names stay different after
the rewriting, or are both too long to be found again. -/
theorem isolated_iff {first second : CString} (different : first ≠ second) :
    (∀ s, histories.Reachable s → Isolated first second s) ↔
      shmName first ≠ shmName second ∨ nameSize ≤ first.bytes.length := by
  constructor
  · intro isolated
    by_contra meets
    obtain ⟨same, short⟩ := not_or.mp meets
    obtain ⟨s, reach, shared⟩ := collision different (not_not.mp same) (Nat.not_le.mp short) .empty
    exact shared (isolated s reach)
  · intro apart s reach h memberH k memberK nameH nameK same
    have owned := reachable_owned reach
    rcases apart with rewritten | long
    · have bornH := (owned.born h memberH).2
      have bornK := (owned.born k memberK).2
      rw [nameH, same] at bornH
      rw [nameK, bornH] at bornK
      exact rewritten bornK
    · have sameName := owned.unshared h memberH (nameH ▸ long) k memberK same.symm
      exact different (nameH ▸ nameK ▸ sameName.symm)

def slashed : CString := ⟨[0x61, 0x2f, 0x62], by decide⟩

def underscored : CString := ⟨[0x61, 0x5f, 0x62], by decide⟩

def plain : CString := ⟨[0x61, 0x62], by decide⟩

theorem isolated_iff_plain : slashed ≠ plain ∧
    ((∀ s, histories.Reachable s → Isolated slashed plain s) ↔
      shmName slashed ≠ shmName plain ∨ nameSize ≤ slashed.bytes.length) :=
  ⟨by decide, isolated_iff (by decide)⟩

/-- A lookup of the slashed name after both were published yields the other's object. -/
theorem slash_meets_underscore :
    slashed ≠ underscored ∧ ∃ s, histories.Reachable s ∧ ¬ Isolated slashed underscored s := by
  have init : histories.initial (.fresh .empty) := ⟨rfl, rfl⟩
  obtain ⟨s, reach, shared⟩ := Machine.reachable_of_check histories (fun _ _ => True) init
    [⟨slashed, true⟩, ⟨underscored, true⟩, ⟨slashed, false⟩]
    (fun s => !decide (Isolated slashed underscored s)) (by decide +kernel)
  exact ⟨by decide, s, reach, by simpa using shared⟩

end ComIpc.SystemManager
