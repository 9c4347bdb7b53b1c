import ComIpc.Semantics.Picking
import ComIpc.Semantics.Refinement
import ComIpc.SystemManager.Stability

/-! The topic registry is a list of names.

A fixed array with a count, bounded copies and bounded comparisons: what `listTopics` prints
of it after any history of calls is what a plain list would hold, to which a publisher adds
the first 63 characters of a name that is not there.
-/

set_option autoImplicit false

namespace ComIpc.SystemManager

open Semantics

namespace SystemManagerShm

def topicLines (mgr : SystemManagerShm) : List Bytes :=
  (List.finRange maxTopics).filterMap fun i =>
    if i.val < mgr.topicCount then
      if (mgr.topics i).active then some (cstr (mgr.topics i).name) else none
    else none

theorem topicLines_eq {mgr : SystemManagerShm} (registered : WellRegistered mgr) :
    mgr.topicLines = ((List.finRange maxTopics).take mgr.topicCount).map
      fun i => cstr (mgr.topics i).name := by
  rw [← filterMap_below, topicLines]
  apply List.filterMap_congr
  intro i _
  split
  · rename_i used
    rw [if_pos (registered.used i used)]
  · rfl

theorem topicLines_add {mgr : SystemManagerShm} (registered : WellRegistered mgr) (name : CString)
    (room : mgr.topicCount < maxTopics) : (mgr.addTopic name room).topicLines =
      mgr.topicLines ++ [name.bytes.take (nameSize - 1)] := by
  have last : (List.finRange maxTopics).take (mgr.topicCount + 1) =
      (List.finRange maxTopics).take mgr.topicCount ++ [⟨mgr.topicCount, room⟩] := by
    rw [List.take_add_one, List.getElem?_eq_getElem (by simpa using room), List.getElem_finRange]
    rfl
  have earlier : ∀ i ∈ (List.finRange maxTopics).take mgr.topicCount,
      cstr ((mgr.addTopic name room).topics i).name = cstr (mgr.topics i).name := by
    intro i member
    obtain ⟨k, bound, rfl⟩ := List.mem_iff_getElem.mp member
    rw [List.length_take] at bound
    rw [List.getElem_take, List.getElem_finRange, added_other]
    exact Nat.ne_of_lt (Nat.lt_of_lt_of_le bound (Nat.min_le_left _ _))
  rw [topicLines_eq (registered.add name room), topicLines_eq registered]
  show ((List.finRange maxTopics).take (mgr.topicCount + 1)).map _ = _
  rw [last, List.map_append, List.map_congr_left earlier, List.map_singleton,
    cstr_added registered]

theorem findTopic_iff_mem {mgr : SystemManagerShm} (registered : WellRegistered mgr)
    (name : CString) : (mgr.findTopic name).isSome = true ↔ name.bytes ∈ mgr.topicLines := by
  rw [findTopic_isSome_iff registered, topicLines_eq registered, ← filterMap_below,
    List.mem_filterMap]
  constructor
  · rintro ⟨i, used, same⟩
    exact ⟨i, List.mem_finRange i, by rw [if_pos used, same]⟩
  · rintro ⟨i, _, shown⟩
    split at shown
    · rename_i used
      exact ⟨i, used, Option.some.inj shown⟩
    · contradiction

end SystemManagerShm

def addName (names : List Bytes) (c : Call) : List Bytes :=
  if c.name.bytes ∈ names then names
  else if c.isPublisher = true ∧ names.length < maxTopics then
    names ++ [c.name.bytes.take (nameSize - 1)]
  else names

structure Names (s : History) (names : List Bytes) : Prop where
  registered : WellRegistered s.mgr
  lines : s.mgr.topicLines = names
  count : s.mgr.topicCount = names.length

theorem Names.call {s : History} {names : List Bytes} (same : Names s names) (c : Call) :
    Names (outcome s c) (addName names c) := by
  obtain ⟨registered, rfl, count⟩ := same
  have found := SystemManagerShm.findTopic_iff_mem registered c.name
  unfold outcome addName
  by_cases present : c.name.bytes ∈ s.mgr.topicLines
  · rw [if_pos present, if_pos (found.mpr present)]
    exact ⟨registered, rfl, count⟩
  · rw [if_neg present, if_neg (mt found.mp present), ← count]
    split
    · rename_i room
      refine ⟨registered.add c.name room.2, ?_, ?_⟩
      · exact SystemManagerShm.topicLines_add registered c.name room.2
      · rw [List.length_append, ← count]
        rfl
    · exact ⟨registered, rfl, count⟩

end ComIpc.SystemManager
