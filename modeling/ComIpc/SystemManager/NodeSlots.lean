import ComIpc.Semantics.Leases
import ComIpc.SystemManager.Nodes
import ComIpc.SystemManager.Stability

/-! The slots of the `Node` objects.

Objects are constructed and destroyed in any number of processes, none of which dies. A slot is
used again and again, and the only reference to it is the number that an object keeps.
-/

set_option autoImplicit false

namespace ComIpc.SystemManager

open Semantics

/-- The object, with the process that it lives in. -/
structure Node where
  nodeId : Int
  name : CString
  pid : Pid
  deriving DecidableEq

namespace Node

def construct (reg : NodeRegistry) (name : CString) (pid : Pid) :
    Option (NodeRegistry × Node) := do
  let (reg, nodeId) ← reg.registerNode name pid
  some (reg, ⟨nodeId, name, pid⟩)

def destruct (node : Node) (reg : NodeRegistry) : Option NodeRegistry :=
  reg.unregisterNode node.nodeId

/-- The slot whose number the object keeps. -/
def slot (node : Node) : Option (Fin maxNodes) :=
  if within : 0 ≤ node.nodeId ∧ node.nodeId < maxNodes then
    some ⟨node.nodeId.toNat, toNat_lt_maxNodes within⟩
  else none

theorem slot_number {node : Node} {i : Fin maxNodes} (number : node.nodeId = i.val) :
    node.slot = some i := by
  have within : 0 ≤ node.nodeId ∧ node.nodeId < maxNodes := by omega
  rw [slot, dif_pos within]
  exact congrArg some (Fin.ext (by simp [number]))

theorem slot_none {node : Node} (number : node.nodeId = -1) : node.slot = none := by
  have outside : ¬ (0 ≤ node.nodeId ∧ node.nodeId < maxNodes) := by omega
  rw [slot, dif_neg outside]

end Node

namespace NodeRegistry

def activeSlots (reg : NodeRegistry) : Finset (Fin maxNodes) :=
  Finset.univ.filter fun i => (reg.nodes i).active = true

theorem mem_activeSlots {reg : NodeRegistry} {i : Fin maxNodes} :
    i ∈ reg.activeSlots ↔ (reg.nodes i).active = true := by
  simp [activeSlots]

theorem activeSlots_enter (reg : NodeRegistry) (i : Fin maxNodes) (r : NodeRegistration) :
    (reg.enter i r).activeSlots = insert i reg.activeSlots := by
  ext j
  rw [mem_activeSlots, Finset.mem_insert, mem_activeSlots, enter]
  by_cases same : j = i
  · simp [same, stored]
  · simp [same]

theorem activeSlots_vacate (reg : NodeRegistry) (i : Fin maxNodes) :
    (reg.vacate i).activeSlots = reg.activeSlots.erase i := by
  ext j
  rw [mem_activeSlots, Finset.mem_erase, mem_activeSlots, vacate]
  by_cases same : j = i
  · simp [same]
  · simp [same]

end NodeRegistry

/-- The first 63 characters of a name, and zeros in the rest of the array. -/
def padded (name : CString) : Bytes :=
  name.bytes.take (nameSize - 1) ++
    List.replicate (nameSize - (name.bytes.take (nameSize - 1)).length) 0

theorem strncpy_padded {target : Bytes} (terminated : target.drop (nameSize - 1) = [0])
    (name : CString) : strncpy target name.bytes (nameSize - 1) = padded name := by
  have zeros : nameSize - (name.bytes.take (nameSize - 1)).length =
      nameSize - 1 - name.bytes.length + 1 := by
    have size : nameSize = 64 := rfl
    rw [List.length_take]
    omega
  rw [strncpy, terminated, padded, zeros, List.replicate_succ', List.append_assoc]

namespace NodeSlots

structure State (K : Type) where
  registry : NodeRegistry
  live : K → Option Node

inductive Event (K : Type) where
  | construct (k : K) (name : CString) (pid : Pid)
  | destroy (k : K)
  deriving DecidableEq

section
variable {K : Type}

def State.slots (s : State K) (k : K) : Option (Fin maxNodes) := (s.live k).bind Node.slot

/-- The slot holds what the object was registered with, and nothing else. -/
structure Owns (reg : NodeRegistry) (node : Node) (i : Fin maxNodes) : Prop where
  number : node.nodeId = i.val
  info : reg.nodes i = ⟨padded node.name, node.pid.number, true⟩

structure Tenants (s : State K) : Prop where
  free : s.registry.mutex = .unlocked
  terminated : ∀ i, (s.registry.nodes i).name.drop (nameSize - 1) = [0]
  leases : Leases s.slots s.registry.activeSlots
  owns : ∀ k node, s.live k = some node → node.nodeId = -1 ∨ ∃ i, Owns s.registry node i
  count : s.registry.nodeCount = s.registry.activeSlots.card

theorem tenants_initial : Tenants (⟨.init, fun _ => none⟩ : State K) where
  free := rfl
  terminated _ := rfl
  leases := .nobody _
  owns := nofun
  count := show (0 : Int) = (NodeRegistry.init.activeSlots.card : Int) by decide

theorem Owns.kept {reg reg' : NodeRegistry} {node : Node} {i : Fin maxNodes}
    (owns : Owns reg node i) (same : reg'.nodes i = reg.nodes i) : Owns reg' node i :=
  ⟨owns.number, same.trans owns.info⟩

theorem Owns.given {reg : NodeRegistry} {node : Node} {i : Fin maxNodes}
    (owns : Owns reg node i) : node.nodeId ≠ -1 := by
  have number := owns.number
  omega

theorem Owns.active {reg : NodeRegistry} {node : Node} {i : Fin maxNodes}
    (owns : Owns reg node i) : i ∈ reg.activeSlots := by
  rw [NodeRegistry.mem_activeSlots, owns.info]

theorem Tenants.slot_of_owns {s : State K} {k : K} {node : Node} {i : Fin maxNodes}
    (live : s.live k = some node) (owns : Owns s.registry node i) : s.slots k = some i := by
  rw [State.slots, live, Option.bind_some, Node.slot_number owns.number]

theorem Tenants.apart {s : State K} (tenants : Tenants s) {k l : K} {node other : Node}
    {i j : Fin maxNodes} (live : s.live k = some node) (owns : Owns s.registry node i)
    (also : s.live l = some other) (owns' : Owns s.registry other j) (different : l ≠ k) : j ≠ i :=
  tenants.leases.apart (slot_of_owns live owns) (slot_of_owns also owns') different

theorem Tenants.spared {s : State K} (tenants : Tenants s) {k l : K} {node other : Node}
    {i j : Fin maxNodes} (live : s.live k = some node) (owns : Owns s.registry node i)
    (also : s.live l = some other) (owns' : Owns s.registry other j) (different : l ≠ k) :
    Owns (s.registry.vacate i) other j :=
  owns'.kept (Function.update_of_ne (tenants.apart live owns also owns' different) ..)

theorem Tenants.still_terminated {s : State K} (tenants : Tenants s) {i : Fin maxNodes}
    {info : NodeInfo} (zero : info.name.drop (nameSize - 1) = [0]) :
    ∀ j, (Function.update s.registry.nodes i info j).name.drop (nameSize - 1) = [0] :=
  (Function.forall_update_iff s.registry.nodes
    fun _ info => info.name.drop (nameSize - 1) = [0]).mpr ⟨zero, fun j _ => tenants.terminated j⟩

variable [DecidableEq K]

def next (s : State K) : Event K → Option (State K)
  | .construct k name pid => do
    guard (s.live k = none)
    let (registry, node) ← Node.construct s.registry name pid
    some ⟨registry, Function.update s.live k (some node)⟩
  | .destroy k => do
    let node ← s.live k
    let registry ← node.destruct s.registry
    some ⟨registry, Function.update s.live k none⟩

def objects (K : Type) [DecidableEq K] : Machine (State K) (Event K) where
  initial := fun s => s = ⟨.init, fun _ => none⟩
  next := next

theorem slots_update (s : State K) (registry : NodeRegistry) (k : K) (node : Option Node) :
    State.slots ⟨registry, Function.update s.live k node⟩ =
      Function.update s.slots k (node.bind Node.slot) :=
  Function.comp_update (fun node : Option Node => node.bind Node.slot) s.live k node

theorem Tenants.construct {s : State K} (tenants : Tenants s) (k : K) (name : CString) (pid : Pid)
    (fresh : s.live k = none) :
    (∃ i, s.registry.freeSlot = some i ∧ next s (.construct k name pid) =
      some ⟨s.registry.enter i ⟨name, pid⟩, Function.update s.live k (some ⟨i.val, name, pid⟩)⟩) ∨
    s.registry.freeSlot = none ∧ next s (.construct k name pid) =
      some ⟨s.registry, Function.update s.live k (some ⟨-1, name, pid⟩)⟩ := by
  have usable : s.registry.mutex.Usable := .inl tenants.free
  have unlocked : { s.registry with mutex := .unlocked } = s.registry := by rw [← tenants.free]
  cases found : s.registry.freeSlot with
  | some i =>
    have registered := NodeRegistry.registerNode_free usable found name pid
    exact .inl ⟨i, rfl, by simp [next, fresh, Node.construct, registered]⟩
  | none =>
    have refused := NodeRegistry.registerNode_full usable found name pid
    rw [unlocked] at refused
    exact .inr ⟨rfl, by simp [next, fresh, Node.construct, refused]⟩

theorem Tenants.destroy {s : State K} (tenants : Tenants s) {k : K} {node : Node}
    (live : s.live k = some node) :
    (∃ i, Owns s.registry node i ∧ next s (.destroy k) =
      some ⟨s.registry.vacate i, Function.update s.live k none⟩) ∨
    node.nodeId = -1 ∧ next s (.destroy k) =
      some ⟨s.registry, Function.update s.live k none⟩ := by
  rcases tenants.owns k node live with refused | ⟨i, owns⟩
  · refine .inr ⟨refused, ?_⟩
    simp [next, live, Node.destruct, refused, NodeRegistry.unregisterNode_none]
  · have active : (s.registry.nodes i).active = true := by rw [owns.info]
    have vacated := NodeRegistry.unregisterNode_active (.inl tenants.free) active
    exact .inl ⟨i, owns, by simp [next, live, Node.destruct, owns.number, vacated]⟩

theorem Tenants.enter {s : State K} (tenants : Tenants s) (k : K) (r : NodeRegistration)
    {i : Fin maxNodes} (found : s.registry.freeSlot = some i) :
    Tenants ⟨s.registry.enter i r, Function.update s.live k (some ⟨i.val, r.name, r.pid⟩)⟩ := by
  have inactive : i ∉ s.registry.activeSlots := by
    rw [NodeRegistry.mem_activeSlots, NodeRegistry.freeSlot_inactive found]
    exact Bool.false_ne_true
  refine ⟨rfl, ?_, ?_, ?_, ?_⟩
  · apply tenants.still_terminated
    exact (drop_strncpy ..).trans (tenants.terminated i)
  · rw [slots_update, NodeRegistry.activeSlots_enter, Option.bind_some, Node.slot_number rfl]
    exact tenants.leases.grant k inactive
  · intro l node live
    rcases Leases.of_update live with ⟨rfl, made⟩ | ⟨_, live⟩
    · obtain rfl := Option.some.inj made
      refine .inr ⟨i, rfl, ?_⟩
      simp only [NodeRegistry.enter, Function.update_self, NodeRegistry.stored]
      rw [strncpy_padded (tenants.terminated i)]
    · refine (tenants.owns l node live).imp_right ?_
      rintro ⟨j, owns⟩
      -- whoever owns a slot already does not own the free one
      have elsewhere : j ≠ i := fun same => inactive (same ▸ owns.active)
      exact ⟨j, owns.kept (Function.update_of_ne elsewhere ..)⟩
  · rw [NodeRegistry.activeSlots_enter, Finset.card_insert_of_notMem inactive]
    have count := tenants.count
    show s.registry.nodeCount + 1 = _
    omega

theorem Tenants.refuse {s : State K} (tenants : Tenants s) (k : K) (name : CString) (pid : Pid) :
    Tenants ⟨s.registry, Function.update s.live k (some ⟨-1, name, pid⟩)⟩ := by
  refine ⟨tenants.free, tenants.terminated, ?_, ?_, tenants.count⟩
  · rw [slots_update, Option.bind_some, Node.slot_none rfl]
    exact tenants.leases.drop k
  · intro l node live
    rcases Leases.of_update live with ⟨rfl, made⟩ | ⟨_, live⟩
    · exact Option.some.inj made ▸ .inl rfl
    · exact tenants.owns l node live

theorem Tenants.vacate {s : State K} (tenants : Tenants s) {k : K} {node : Node}
    {i : Fin maxNodes} (live : s.live k = some node) (owns : Owns s.registry node i) :
    Tenants ⟨s.registry.vacate i, Function.update s.live k none⟩ := by
  refine ⟨rfl, ?_, ?_, ?_, ?_⟩
  · exact tenants.still_terminated (tenants.terminated i)
  · rw [slots_update, NodeRegistry.activeSlots_vacate]
    exact tenants.leases.release (slot_of_owns live owns)
  · intro l other also
    obtain ⟨different, also⟩ := Leases.held_of_none also
    refine (tenants.owns l other also).imp_right ?_
    rintro ⟨j, owns'⟩
    exact ⟨j, tenants.spared live owns also owns' different⟩
  · rw [NodeRegistry.activeSlots_vacate]
    have count := tenants.count
    have smaller := Finset.card_erase_add_one owns.active
    show s.registry.nodeCount - 1 = _
    omega

theorem Tenants.drop {s : State K} (tenants : Tenants s) (k : K) :
    Tenants ⟨s.registry, Function.update s.live k none⟩ := by
  refine ⟨tenants.free, tenants.terminated, ?_, ?_, tenants.count⟩
  · rw [slots_update, Option.bind_none]
    exact tenants.leases.drop k
  · intro l node live
    exact tenants.owns l node (Leases.held_of_none live).2

theorem Tenants.step {s t : State K} {e : Event K} (tenants : Tenants s)
    (taken : next s e = some t) : Tenants t := by
  cases e with
  | construct k name pid =>
    have fresh : s.live k = none := by
      simp only [next, Option.bind_eq_bind, Option.bind_eq_some_iff, guard_passed] at taken
      obtain ⟨_, fresh, _⟩ := taken
      exact fresh
    obtain ⟨i, found, does⟩ | ⟨_, does⟩ := tenants.construct k name pid fresh
    · exact Option.some.inj (does.symm.trans taken) ▸ tenants.enter k ⟨name, pid⟩ found
    · exact Option.some.inj (does.symm.trans taken) ▸ tenants.refuse k name pid
  | destroy k =>
    obtain ⟨node, live, _⟩ := Option.bind_eq_some_iff.mp taken
    obtain ⟨i, owns, does⟩ | ⟨_, does⟩ := tenants.destroy live
    · exact Option.some.inj (does.symm.trans taken) ▸ tenants.vacate live owns
    · exact Option.some.inj (does.symm.trans taken) ▸ tenants.drop k

theorem reachable_tenants {s : State K} (reach : (objects K).Reachable s) : Tenants s := by
  refine reach.invariant Tenants ?_ ?_
  · rintro _ rfl
    exact tenants_initial
  · exact fun _ _ _ tenants _ taken => tenants.step taken

/-- The objects and their slots, and what the next construction or destruction does to them. -/
structure Housed (s : State K) : Prop where
  owns : ∀ k node, s.live k = some node → node.nodeId ≠ -1 → ∃ i, Owns s.registry node i
  distinct : ∀ k l node other, s.live k = some node → s.live l = some other → l ≠ k →
    node.nodeId ≠ -1 → other.nodeId ≠ node.nodeId
  count : s.registry.nodeCount = s.registry.activeSlots.card
  bounded : s.registry.nodeCount ≤ maxNodes
  constructs : ∀ k name pid, s.live k = none → ∃ t node, next s (.construct k name pid) = some t ∧
    t.live = Function.update s.live k (some node) ∧ node.name = name ∧ node.pid = pid ∧
    (node.nodeId = -1 → ∀ i, (s.registry.nodes i).active = true)
  destroys : ∀ k node, s.live k = some node → ∃ t, next s (.destroy k) = some t ∧
    t.live = Function.update s.live k none ∧
    (∀ l other i, l ≠ k → s.live l = some other → Owns s.registry other i →
      Owns t.registry other i) ∧
    (node.nodeId = -1 → t.registry = s.registry)

/-- Over any history of constructions and destructions, every object that was given a slot is the
only one that has it, and destroying an object leaves the slots of all others alone. -/
theorem nodes_housed {s : State K} (reach : (objects K).Reachable s) : Housed s := by
  have tenants := reachable_tenants reach
  have housed : ∀ k node, s.live k = some node → node.nodeId ≠ -1 →
      ∃ i, Owns s.registry node i := by
    intro k node live given
    exact (tenants.owns k node live).resolve_left given
  refine ⟨housed, ?_, tenants.count, ?_, ?_, ?_⟩
  · intro k l node other live also different given same
    obtain ⟨i, owns⟩ := housed k node live given
    obtain ⟨j, owns'⟩ := housed l other also (same ▸ given)
    have apart := tenants.apart live owns also owns' different
    have number := owns.number
    have number' := owns'.number
    omega
  · have most := Finset.card_le_univ s.registry.activeSlots
    rw [Fintype.card_fin] at most
    have count := tenants.count
    omega
  · intro k name pid fresh
    obtain ⟨i, _, does⟩ | ⟨full, does⟩ := tenants.construct k name pid fresh
    · refine ⟨_, _, does, rfl, rfl, rfl, fun refused => ?_⟩
      have number : (i.val : Int) = -1 := refused
      omega
    · exact ⟨_, _, does, rfl, rfl, rfl, fun _ => NodeRegistry.freeSlot_full full⟩
  · intro k node live
    obtain ⟨i, owns, does⟩ | ⟨refused, does⟩ := tenants.destroy live
    · refine ⟨_, does, rfl, ?_, fun refused => ?_⟩
      · intro l other j different also owns'
        exact tenants.spared live owns also owns' different
      · exact absurd refused owns.given
    · exact ⟨_, does, rfl, fun _ _ _ _ _ owns => owns, fun _ => rfl⟩

end

theorem nodes_housed_reused : ∃ s : State (Fin 3),
    s.live 2 = some ⟨0, plain, ⟨8, by decide⟩⟩ ∧ s.live 1 = some ⟨1, plain, ⟨7, by decide⟩⟩ ∧
      Housed s := by
  obtain ⟨s, reach, scene⟩ := Machine.reachable_of_check (objects (Fin 3)) (fun _ _ => True) rfl
    [.construct 0 longName ⟨7, by decide⟩, .construct 1 plain ⟨7, by decide⟩, .destroy 0,
      .construct 2 plain ⟨8, by decide⟩]
    (fun s => decide (s.live 2 = some ⟨0, plain, ⟨8, by decide⟩⟩ ∧
      s.live 1 = some ⟨1, plain, ⟨7, by decide⟩⟩)) (by decide +kernel)
  obtain ⟨second, first⟩ := of_decide_eq_true scene
  exact ⟨s, second, first, nodes_housed reach⟩

end NodeSlots

end ComIpc.SystemManager
