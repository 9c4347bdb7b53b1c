import ComIpc.SystemManager.NodeSlots

/-! The list of the nodes, and the node that `com_node kill` ends.

No slot is active that no object has. So the list names every object that was given a slot,
once, and nothing else; a lookup finds the first line with the name, and a signal goes to the
process of a live object.
-/

set_option autoImplicit false

namespace ComIpc.SystemManager

open Semantics

/-- A line of the list; the fixed text around the two is left out. -/
structure NodeLine where
  name : Bytes
  pid : Int
  deriving DecidableEq, Repr

namespace NodeRegistry

def nodeLines (reg : NodeRegistry) : List NodeLine :=
  (List.finRange maxNodes).filterMap fun i =>
    if (reg.nodes i).active then some ⟨cstr (reg.nodes i).name, (reg.nodes i).pid⟩ else none

def listNodes (reg : NodeRegistry) : Option (NodeRegistry × List NodeLine) := do
  let reg ← reg.lockRobust
  some (reg.unlock, reg.nodeLines)

theorem listNodes_usable {reg : NodeRegistry} (usable : reg.mutex.Usable) :
    reg.listNodes = some ({ reg with mutex := .unlocked }, reg.nodeLines) := by
  rw [listNodes, lockRobust_usable usable]
  rfl

def activeList (reg : NodeRegistry) : List (Fin maxNodes) :=
  (List.finRange maxNodes).filter fun i => (reg.nodes i).active

theorem mem_activeList {reg : NodeRegistry} {i : Fin maxNodes} :
    i ∈ reg.activeList ↔ i ∈ reg.activeSlots := by
  simp [activeList, mem_activeSlots]

theorem activeList_nodup (reg : NodeRegistry) : reg.activeList.Nodup :=
  (List.nodup_finRange maxNodes).filter _

theorem nodeLines_eq (reg : NodeRegistry) : reg.nodeLines =
    reg.activeList.map fun i => ⟨cstr (reg.nodes i).name, (reg.nodes i).pid⟩ := by
  rw [nodeLines, activeList]
  induction List.finRange maxNodes with
  | nil => rfl
  | cons i rest ih =>
    cases active : (reg.nodes i).active <;> simp [active, ih]

end NodeRegistry

theorem cstr_padded (name : CString) : cstr (padded name) = name.bytes.take (nameSize - 1) := by
  have free : 0 ∉ name.bytes.take (nameSize - 1) := fun member =>
    name.nulFree (List.mem_of_mem_take member)
  have some_zero : nameSize - (name.bytes.take (nameSize - 1)).length =
      nameSize - (name.bytes.take (nameSize - 1)).length - 1 + 1 := by
    have size : nameSize = 64 := rfl
    rw [List.length_take]
    omega
  rw [padded, some_zero, List.replicate_succ]
  exact cstr_append_zero free

namespace NodeSlots

section
variable {K : Type}

def State.line (s : State K) (k : K) : Option NodeLine :=
  (s.live k).map fun node => ⟨node.name.bytes.take (nameSize - 1), node.pid.number⟩

theorem Tenants.slots_iff {s : State K} (tenants : Tenants s) {k : K} :
    (∃ i, s.slots k = some i) ↔ ∃ node, s.live k = some node ∧ node.nodeId ≠ -1 := by
  constructor
  · rintro ⟨i, held⟩
    obtain ⟨node, live, slot⟩ := Option.bind_eq_some_iff.mp held
    refine ⟨node, live, fun refused => ?_⟩
    exact nomatch (Node.slot_none refused).symm.trans slot
  · rintro ⟨node, live, given⟩
    obtain ⟨i, owns⟩ := (tenants.owns k node live).resolve_left given
    exact ⟨i, Tenants.slot_of_owns live owns⟩

theorem Tenants.line_of_slot {s : State K} (tenants : Tenants s) {k : K} {i : Fin maxNodes}
    (held : s.slots k = some i) :
    s.line k = some ⟨cstr (s.registry.nodes i).name, (s.registry.nodes i).pid⟩ := by
  obtain ⟨node, live, given⟩ := tenants.slots_iff.mp ⟨i, held⟩
  obtain ⟨j, owns⟩ := (tenants.owns k node live).resolve_left given
  obtain rfl := Option.some.inj ((Tenants.slot_of_owns live owns).symm.trans held)
  rw [State.line, live, owns.info, cstr_padded, Option.map_some]

theorem Tenants.slots_none {s : State K} {k : K} (absent : s.live k = none) : s.slots k = none := by
  rw [State.slots, absent, Option.bind_none]

def InSlotOrder (s : State K) (hs : List K) : Prop :=
  hs.Pairwise fun h k =>
    ∀ a b, s.live h = some a → s.live k = some b → a.nodeId < b.nodeId

theorem Tenants.inSlotOrder {s : State K} (tenants : Tenants s) {hs : List K}
    (given : ∀ k ∈ hs, ∃ node, s.live k = some node ∧ node.nodeId ≠ -1)
    (same : hs.map s.slots = s.registry.activeList.map some) : InSlotOrder s hs := by
  have sorted : s.registry.activeList.Pairwise (· < ·) :=
    (List.pairwise_lt_finRange maxNodes).filter _
  have slots : (hs.map s.slots).Pairwise fun first second =>
      ∀ i j, first = some i → second = some j → i < j := by
    rw [same]
    refine List.pairwise_map.mpr (sorted.imp fun {i j} less => ?_)
    intro a b first second
    obtain rfl := Option.some.inj first
    obtain rfl := Option.some.inj second
    exact less
  refine (List.pairwise_map.mp slots).imp_of_mem fun {h k} first second less => ?_
  intro a b here there
  have number : ∀ l ∈ hs, ∀ node, s.live l = some node →
      ∃ i : Fin maxNodes, s.slots l = some i ∧ node.nodeId = i.val := by
    intro l member node live
    obtain ⟨other, found, some_⟩ := given l member
    obtain rfl := Option.some.inj (found.symm.trans live)
    obtain ⟨i, owns⟩ := (tenants.owns l other live).resolve_left some_
    exact ⟨i, Tenants.slot_of_owns live owns, owns.number⟩
  obtain ⟨i, held, first⟩ := number h first a here
  obtain ⟨j, held', second⟩ := number k second b there
  have less := less i j held held'
  omega

theorem Tenants.listed {s : State K} (tenants : Tenants s)
    (occupied : Occupied s.slots s.registry.activeSlots) : ∃ hs : List K, hs.Nodup ∧
      (∀ k, k ∈ hs ↔ ∃ node, s.live k = some node ∧ node.nodeId ≠ -1) ∧ InSlotOrder s hs ∧
      hs.map s.line = s.registry.nodeLines.map some := by
  obtain ⟨hs, same, once, who⟩ := tenants.leases.holders occupied
    (fun i member => NodeRegistry.mem_activeList.mp member) s.registry.activeList_nodup
  have given : ∀ k, k ∈ hs ↔ ∃ node, s.live k = some node ∧ node.nodeId ≠ -1 := by
    intro k
    rw [who, ← tenants.slots_iff]
    constructor
    · rintro ⟨i, _, held⟩
      exact ⟨i, held⟩
    · rintro ⟨i, held⟩
      exact ⟨i, NodeRegistry.mem_activeList.mpr (tenants.leases.taken k i held), held⟩
  refine ⟨hs, once, given, tenants.inSlotOrder (fun k member => (given k).mp member) same, ?_⟩
  · rw [NodeRegistry.nodeLines_eq]
    let told : Fin maxNodes → NodeLine := fun i =>
      ⟨cstr (s.registry.nodes i).name, (s.registry.nodes i).pid⟩
    have lines : ∀ k ∈ hs, s.line k = (s.slots k).map told := by
      intro k member
      obtain ⟨i, _, held⟩ := (who k).mp member
      rw [tenants.line_of_slot held, held, Option.map_some]
    calc hs.map s.line
      _ = hs.map fun k => (s.slots k).map told := List.map_congr_left lines
      _ = (hs.map s.slots).map (Option.map told) := by rw [List.map_map]; rfl
      _ = (s.registry.activeList.map told).map some := by
        rw [same, List.map_map, List.map_map]
        rfl

theorem Tenants.unlocked {s : State K} (tenants : Tenants s) :
    { s.registry with mutex := .unlocked } = s.registry := by
  rw [← tenants.free]

variable [DecidableEq K]

theorem occupied_step {s t : State K} {e : Event K} (tenants : Tenants s)
    (occupied : Occupied s.slots s.registry.activeSlots) (taken : next s e = some t) :
    Occupied t.slots t.registry.activeSlots := by
  cases e with
  | construct k name pid =>
    have fresh : s.live k = none := by
      simp only [next, Option.bind_eq_bind, Option.bind_eq_some_iff, guard_passed] at taken
      obtain ⟨_, fresh, _⟩ := taken
      exact fresh
    have nothing := Tenants.slots_none fresh
    obtain ⟨i, _, does⟩ | ⟨_, does⟩ := tenants.construct k name pid fresh
    · obtain rfl := Option.some.inj (does.symm.trans taken)
      rw [slots_update, NodeRegistry.activeSlots_enter, Option.bind_some, Node.slot_number rfl]
      exact occupied.grant nothing i
    · obtain rfl := Option.some.inj (does.symm.trans taken)
      rw [slots_update, Option.bind_some, Node.slot_none rfl]
      exact occupied.drop nothing
  | destroy k =>
    obtain ⟨node, live, _⟩ := Option.bind_eq_some_iff.mp taken
    obtain ⟨i, owns, does⟩ | ⟨refused, does⟩ := tenants.destroy live
    · obtain rfl := Option.some.inj (does.symm.trans taken)
      rw [slots_update, NodeRegistry.activeSlots_vacate]
      exact occupied.release (Tenants.slot_of_owns live owns)
    · obtain rfl := Option.some.inj (does.symm.trans taken)
      have nothing : s.slots k = none := by
        rw [State.slots, live, Option.bind_some, Node.slot_none refused]
      rw [slots_update, Option.bind_none]
      exact occupied.drop nothing

theorem reachable_occupied {s : State K} (reach : (objects K).Reachable s) :
    Occupied s.slots s.registry.activeSlots := by
  apply reach.invariant_of (fun s => Occupied s.slots s.registry.activeSlots)
  · rintro _ rfl i active
    exact absurd (NodeRegistry.mem_activeSlots.mp active) Bool.false_ne_true
  · exact fun _ _ _ reach occupied _ taken =>
      occupied_step (reachable_tenants reach) occupied taken

/-- The list names every object that was given a slot, once and in the order of the slots, with its
own pid and the first 63 characters of its name, and nothing else. -/
theorem list_names_live {s : State K} (reach : (objects K).Reachable s) :
    ∃ (lines : List NodeLine) (hs : List K),
      s.registry.listNodes = some (s.registry, lines) ∧ hs.Nodup ∧
      (∀ k, k ∈ hs ↔ ∃ node, s.live k = some node ∧ node.nodeId ≠ -1) ∧ InSlotOrder s hs ∧
      hs.map s.line = lines.map some ∧ s.registry.nodeCount = lines.length := by
  have tenants := reachable_tenants reach
  obtain ⟨hs, once, who, ordered, same⟩ := tenants.listed (reachable_occupied reach)
  refine ⟨s.registry.nodeLines, hs, ?_, once, who, ordered, same, ?_⟩
  · rw [NodeRegistry.listNodes_usable (.inl tenants.free), tenants.unlocked]
  · rw [tenants.count, NodeRegistry.nodeLines_eq, List.length_map]
    have card : s.registry.activeSlots = s.registry.activeList.toFinset := by
      ext i
      rw [List.mem_toFinset, NodeRegistry.mem_activeList]
    rw [card, List.toFinset_card_of_nodup s.registry.activeList_nodup]

end

theorem list_names_live_reused : ∃ (s : State (Fin 4)) (lines : List NodeLine) (hs : List (Fin 4)),
    s.registry.nodeLines = [⟨longName.bytes.take 63, 9⟩, ⟨plain.bytes, 7⟩, ⟨plain.bytes, 8⟩] ∧
      s.registry.listNodes = some (s.registry, lines) ∧ InSlotOrder s hs ∧
      hs.map s.line = lines.map some := by
  obtain ⟨s, reach, printed⟩ := Machine.reachable_of_check (objects (Fin 4)) (fun _ _ => True) rfl
    [.construct 0 plain ⟨6, by decide⟩, .construct 1 plain ⟨7, by decide⟩, .destroy 0,
      .construct 2 longName ⟨9, by decide⟩, .construct 3 plain ⟨8, by decide⟩]
    (fun s => decide (s.registry.nodeLines =
      [⟨longName.bytes.take 63, 9⟩, ⟨plain.bytes, 7⟩, ⟨plain.bytes, 8⟩])) (by decide +kernel)
  obtain ⟨lines, hs, does, _, _, ordered, same, _⟩ := list_names_live reach
  exact ⟨s, lines, hs, of_decide_eq_true printed, does, ordered, same⟩

end NodeSlots

end ComIpc.SystemManager
