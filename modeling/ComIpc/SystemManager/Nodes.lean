import ComIpc.Semantics.CString
import ComIpc.Semantics.Machine
import ComIpc.SystemManager.Lock
import ComIpc.SystemManager.Registry

/-! The node registry: `registerNode`, `unregisterNode` and `getNodePid`.

Each function is one critical section of the manager mutex, and a process may die anywhere
inside. A slot holds at most 63 characters of a name, and `getNodePid` compares them with the
whole name it is asked for.
-/

set_option autoImplicit false

namespace ComIpc.SystemManager

open Semantics

abbrev maxNodes : Nat := 50

theorem toNat_lt_maxNodes {nodeId : Int} (within : 0 ≤ nodeId ∧ nodeId < maxNodes) :
    nodeId.toNat < maxNodes := by
  omega

structure NodeInfo where
  name : Bytes
  pid : Int
  active : Bool
  deriving DecidableEq

def NodeInfo.zero : NodeInfo := ⟨List.replicate nameSize 0, 0, false⟩

structure Pid where
  number : Int
  positive : 0 < number
  deriving DecidableEq

structure NodeRegistration where
  name : CString
  pid : Pid
  deriving DecidableEq

/-- The part of `SystemManagerShm` that the node functions use. -/
structure NodeRegistry where
  mutex : RobustMutex
  nodeCount : Int
  nodes : Fin maxNodes → NodeInfo

def NodeRegistry.init : NodeRegistry := ⟨.unlocked, 0, fun _ => .zero⟩

namespace NodeRegistry

def lockRobust (reg : NodeRegistry) : Option NodeRegistry :=
  (SystemManager.lockRobust reg.mutex).map fun taken => { reg with mutex := taken.1 }

def unlock (reg : NodeRegistry) : NodeRegistry := { reg with mutex := reg.mutex.unlock }

def ownerDies (reg : NodeRegistry) : NodeRegistry := { reg with mutex := reg.mutex.ownerDies }

def setNode (reg : NodeRegistry) (i : Fin maxNodes) (f : NodeInfo → NodeInfo) : NodeRegistry :=
  { reg with nodes := Function.update reg.nodes i (f (reg.nodes i)) }

/-- The writes of a critical section, in program order. -/
def apply (reg : NodeRegistry) (writes : List (NodeRegistry → NodeRegistry)) : NodeRegistry :=
  writes.foldl (fun reg write => write reg) reg

def freeSlot (reg : NodeRegistry) : Option (Fin maxNodes) :=
  (List.finRange maxNodes).find? fun i => !(reg.nodes i).active

/-- The flag comes after the name and the pid. -/
def registerWrites (name : CString) (pid : Pid) (reg : NodeRegistry) :
    List (NodeRegistry → NodeRegistry) :=
  match reg.freeSlot with
  | none => []
  | some i =>
    [fun reg => reg.setNode i fun node =>
        { node with name := strncpy node.name name.bytes (nameSize - 1) },
      fun reg => reg.setNode i fun node => { node with pid := pid.number },
      fun reg => reg.setNode i fun node => { node with active := true },
      fun reg => { reg with nodeCount := reg.nodeCount + 1 }]

def registerNode (reg : NodeRegistry) (name : CString) (pid : Pid) :
    Option (NodeRegistry × Int) := do
  let reg ← reg.lockRobust
  let nodeId : Int := match reg.freeSlot with
    | none => -1
    | some i => i.val
  some ((reg.apply (reg.registerWrites name pid)).unlock, nodeId)

def unregisterWrites (i : Fin maxNodes) (reg : NodeRegistry) :
    List (NodeRegistry → NodeRegistry) :=
  if (reg.nodes i).active then
    [fun reg => reg.setNode i fun node => { node with active := false },
      fun reg => { reg with nodeCount := reg.nodeCount - 1 }]
  else []

def unregisterNode (reg : NodeRegistry) (nodeId : Int) : Option NodeRegistry :=
  if within : 0 ≤ nodeId ∧ nodeId < maxNodes then do
    let reg ← reg.lockRobust
    some (reg.apply (reg.unregisterWrites ⟨nodeId.toNat, toNat_lt_maxNodes within⟩)).unlock
  else some reg

def matchesNode (reg : NodeRegistry) (name : CString) (i : Fin maxNodes) : Bool :=
  (reg.nodes i).active && decide (cstr (reg.nodes i).name = name.bytes)

def findNode (reg : NodeRegistry) (name : CString) : Option (Fin maxNodes) :=
  (List.finRange maxNodes).find? (reg.matchesNode name)

def targetPid (reg : NodeRegistry) (name : CString) : Int :=
  match reg.findNode name with
  | none => -1
  | some i => (reg.nodes i).pid

def getNodePid (reg : NodeRegistry) (name : CString) : Option (NodeRegistry × Int) := do
  let reg ← reg.lockRobust
  some (reg.unlock, reg.targetPid name)

/-- `com_node kill`, and the process that gets the signal. -/
def kill (reg : NodeRegistry) (target : CString) : Option (NodeRegistry × Option Int) := do
  let (reg, pid) ← reg.getNodePid target
  some (reg, if 0 < pid then some pid else none)

def diesAfter (reg : NodeRegistry) (writes : NodeRegistry → List (NodeRegistry → NodeRegistry))
    (count : Nat) : Option NodeRegistry := do
  let reg ← reg.lockRobust
  some (reg.apply ((writes reg).take count)).ownerDies

/-! ### What a critical section has changed, wherever it ends -/

theorem lockRobust_eq {reg taken : NodeRegistry} (locked : reg.lockRobust = some taken) :
    taken = { reg with mutex := .held } ∧ reg.mutex.Usable := by
  obtain ⟨⟨mutex, recovered⟩, acquired, rfl⟩ := Option.map_eq_some_iff.mp locked
  obtain ⟨rfl, usable⟩ := lockRobust_held acquired
  exact ⟨rfl, usable⟩

theorem lockRobust_usable {reg : NodeRegistry} (usable : reg.mutex.Usable) :
    reg.lockRobust = some { reg with mutex := .held } := by
  obtain ⟨recovered, locked⟩ := SystemManager.lockRobust_usable usable
  rw [lockRobust, locked, Option.map_some]

theorem freeSlot_inactive {reg : NodeRegistry} {i : Fin maxNodes} (free : reg.freeSlot = some i) :
    (reg.nodes i).active = false := by
  simpa using List.find?_some free

/-- What a slot holds of a registration. -/
def stored (info : NodeInfo) (r : NodeRegistration) : NodeInfo :=
  ⟨strncpy info.name r.name.bytes (nameSize - 1), r.pid.number, true⟩

/-- A slot is either left alone, switched off, or switched on with what was registered. -/
structure Changes (before after : NodeRegistry) (registered : Option NodeRegistration) : Prop where
  mutex : after.mutex = before.mutex
  behind : ∀ i, (after.nodes i).name.drop (nameSize - 1) =
    (before.nodes i).name.drop (nameSize - 1)
  kept : ∀ i, (before.nodes i).active = true → (after.nodes i).active = true →
    after.nodes i = before.nodes i
  made : ∀ i, (before.nodes i).active = false → (after.nodes i).active = true →
    ∃ r, registered = some r ∧ after.nodes i = stored (before.nodes i) r

theorem Changes.refl (reg : NodeRegistry) (registered : Option NodeRegistration) :
    Changes reg reg registered where
  mutex := rfl
  behind := fun _ => rfl
  kept := fun _ _ _ => rfl
  made := by
    intro i inactive active
    rw [inactive] at active
    contradiction

theorem Changes.slot {reg after : NodeRegistry} (i : Fin maxNodes) (info : NodeInfo)
    {registered : Option NodeRegistration} (mutex : after.mutex = reg.mutex)
    (nodes : after.nodes = Function.update reg.nodes i info)
    (behind : info.name.drop (nameSize - 1) = (reg.nodes i).name.drop (nameSize - 1))
    (kept : (reg.nodes i).active = true → info.active = false)
    (made : info.active = true → ∃ r, registered = some r ∧ info = stored (reg.nodes i) r) :
    Changes reg after registered where
  mutex := mutex
  behind := by
    intro j
    by_cases same : j = i
    · subst same
      rw [nodes, Function.update_self, behind]
    · rw [nodes, Function.update_of_ne same]
  kept := by
    intro j before active
    by_cases same : j = i
    · subst same
      rw [nodes, Function.update_self, kept before] at active
      contradiction
    · rw [nodes, Function.update_of_ne same]
  made := by
    intro j inactive active
    by_cases same : j = i
    · subst same
      rw [nodes, Function.update_self] at active ⊢
      exact made active
    · rw [nodes, Function.update_of_ne same, inactive] at active
      contradiction

theorem setNode_setNode (reg : NodeRegistry) (i : Fin maxNodes) (f g : NodeInfo → NodeInfo) :
    (reg.setNode i f).setNode i g = reg.setNode i fun node => g (f node) := by
  simp only [setNode, Function.update_self, Function.update_idem]

theorem registering (reg : NodeRegistry) (name : CString) (pid : Pid) (count : Nat) :
    Changes reg (reg.apply ((reg.registerWrites name pid).take count)) (some ⟨name, pid⟩) := by
  cases free : reg.freeSlot with
  | none =>
    rw [registerWrites, free, List.take_nil]
    exact .refl ..
  | some i =>
    have inactive := freeSlot_inactive free
    let copied := strncpy (reg.nodes i).name name.bytes (nameSize - 1)
    have behind : copied.drop (nameSize - 1) = (reg.nodes i).name.drop (nameSize - 1) :=
      drop_strncpy ..
    rw [registerWrites, free]
    match count with
    | 0 => exact .refl ..
    | 1 =>
      refine .slot i { reg.nodes i with name := copied } rfl rfl behind ?_ ?_ <;> simp [inactive]
    | 2 =>
      simp only [apply, List.take, List.foldl, setNode_setNode]
      refine .slot i ⟨copied, pid.number, (reg.nodes i).active⟩ rfl rfl behind ?_ ?_ <;>
        simp [inactive]
    | 3 | count + 4 =>
      simp only [apply, List.take, List.foldl, setNode_setNode, List.take_nil]
      refine .slot i ⟨copied, pid.number, true⟩ rfl rfl behind ?_ ?_
      · intro active
        rw [inactive] at active
        contradiction
      · exact fun _ => ⟨⟨name, pid⟩, rfl, rfl⟩

theorem unregistering (reg : NodeRegistry) (i : Fin maxNodes) (count : Nat) :
    Changes reg (reg.apply ((reg.unregisterWrites i).take count)) none := by
  unfold unregisterWrites
  split
  · match count with
    | 0 => exact .refl ..
    | 1 | count + 2 =>
      simp only [apply, List.take, List.foldl, List.take_nil]
      refine .slot i { reg.nodes i with active := false } rfl rfl rfl ?_ ?_
      · exact fun _ => rfl
      · exact fun active => absurd active Bool.false_ne_true
  · rw [List.take_nil]
    exact .refl ..

theorem registered (reg : NodeRegistry) (name : CString) (pid : Pid) :
    Changes reg (reg.apply (reg.registerWrites name pid)) (some ⟨name, pid⟩) := by
  have all := registering reg name pid (reg.registerWrites name pid).length
  rwa [List.take_length] at all

theorem unregistered (reg : NodeRegistry) (i : Fin maxNodes) :
    Changes reg (reg.apply (reg.unregisterWrites i)) none := by
  have all := unregistering reg i (reg.unregisterWrites i).length
  rwa [List.take_length] at all

/-! ### What a whole call does -/

theorem freeSlot_full {reg : NodeRegistry} (full : reg.freeSlot = none) (i : Fin maxNodes) :
    (reg.nodes i).active = true := by
  simpa using List.find?_eq_none.mp full i (List.mem_finRange i)

def enter (reg : NodeRegistry) (i : Fin maxNodes) (r : NodeRegistration) : NodeRegistry where
  mutex := .unlocked
  nodeCount := reg.nodeCount + 1
  nodes := Function.update reg.nodes i (stored (reg.nodes i) r)

def vacate (reg : NodeRegistry) (i : Fin maxNodes) : NodeRegistry where
  mutex := .unlocked
  nodeCount := reg.nodeCount - 1
  nodes := Function.update reg.nodes i { reg.nodes i with active := false }

theorem registerNode_full {reg : NodeRegistry} (usable : reg.mutex.Usable)
    (full : reg.freeSlot = none) (name : CString) (pid : Pid) :
    reg.registerNode name pid = some ({ reg with mutex := .unlocked }, -1) := by
  have full : ({ reg with mutex := .held } : NodeRegistry).freeSlot = none := full
  rw [registerNode, lockRobust_usable usable]
  simp only [Option.bind_eq_bind, Option.bind_some, registerWrites, full]
  rfl

theorem registerNode_free {reg : NodeRegistry} (usable : reg.mutex.Usable) {i : Fin maxNodes}
    (free : reg.freeSlot = some i) (name : CString) (pid : Pid) :
    reg.registerNode name pid = some (reg.enter i ⟨name, pid⟩, (i.val : Int)) := by
  have free : ({ reg with mutex := .held } : NodeRegistry).freeSlot = some i := free
  rw [registerNode, lockRobust_usable usable]
  simp only [Option.bind_eq_bind, Option.bind_some, registerWrites, free, apply, List.foldl,
    setNode_setNode]
  rfl

theorem unregisterNode_active {reg : NodeRegistry} (usable : reg.mutex.Usable) {i : Fin maxNodes}
    (active : (reg.nodes i).active = true) :
    reg.unregisterNode i.val = some (reg.vacate i) := by
  have within : (0 : Int) ≤ i.val ∧ (i.val : Int) < maxNodes := by omega
  rw [unregisterNode, dif_pos within, lockRobust_usable usable]
  simp only [Option.bind_eq_bind, Option.bind_some, Int.toNat_natCast, Fin.eta, unregisterWrites,
    active, if_true, apply, List.foldl]
  rfl

theorem unregisterNode_none (reg : NodeRegistry) : reg.unregisterNode (-1) = some reg := rfl

theorem getNodePid_usable {reg : NodeRegistry} (usable : reg.mutex.Usable) (name : CString) :
    reg.getNodePid name = some ({ reg with mutex := .unlocked }, reg.targetPid name) := by
  rw [getNodePid, lockRobust_usable usable]
  rfl

end NodeRegistry

end ComIpc.SystemManager
