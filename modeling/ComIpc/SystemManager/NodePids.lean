import ComIpc.SystemManager.Isolation
import ComIpc.SystemManager.Nodes

/-! Which process a node name stands for.

Nodes come and go in any number of processes, and some processes die while they register one.
The lookup is right as long as every active node fits its slot with its whole name.
-/

set_option autoImplicit false

namespace ComIpc.SystemManager.NodePids

open Semantics

inductive Operation where
  | register (r : NodeRegistration)
  | unregister (nodeId : Int)
  | lookup (name : CString)
  deriving DecidableEq

namespace Operation

def registered : Operation → Option NodeRegistration
  | register r => some r
  | _ => none

def run (reg : NodeRegistry) : Operation → Option NodeRegistry
  | register r => (reg.registerNode r.name r.pid).map Prod.fst
  | unregister nodeId => reg.unregisterNode nodeId
  | lookup name => (reg.getNodePid name).map Prod.fst

def dies (count : Nat) (reg : NodeRegistry) : Operation → Option NodeRegistry
  | register r => reg.diesAfter (NodeRegistry.registerWrites r.name r.pid) count
  | unregister nodeId =>
    if within : 0 ≤ nodeId ∧ nodeId < maxNodes then
      reg.diesAfter (NodeRegistry.unregisterWrites ⟨nodeId.toNat, toNat_lt_maxNodes within⟩) count
    else some reg
  | lookup _ => reg.diesAfter (fun _ => []) count

end Operation

inductive Event where
  | returns (op : Operation)
  | dies (op : Operation) (count : Nat)
  deriving DecidableEq

structure State where
  registry : NodeRegistry
  -- no part of the system: what each active slot was switched on for
  owners : Fin maxNodes → Option NodeRegistration

def State.become (s : State) (after : NodeRegistry) (registered : Option NodeRegistration) :
    State where
  registry := after
  owners i :=
    if (after.nodes i).active then
      if (s.registry.nodes i).active then s.owners i else registered
    else none

def next (s : State) : Event → Option State
  | .returns op => (op.run s.registry).map fun after => s.become after op.registered
  | .dies op count => (op.dies count s.registry).map fun after => s.become after op.registered

def histories : Machine State Event where
  initial := fun s => s = ⟨.init, fun _ => none⟩
  next := next

/-- The pid of an active node that was registered under exactly the name, if there is one. -/
def Answers (s : State) (name : CString) (pid : Int) : Prop :=
  (∃ i r, s.owners i = some r ∧ r.name = name ∧ pid = r.pid.number) ∨
    (∀ i r, s.owners i = some r → r.name ≠ name) ∧ pid = -1

/-- No signal goes to a process but one that registered an active node under the name. -/
def Signals (s : State) (name : CString) (signalled : Option Int) : Prop :=
  ∀ pid, signalled = some pid → ∃ i r, s.owners i = some r ∧ r.name = name ∧ pid = r.pid.number

def LooksUp (s : State) (name : CString) : Prop :=
  (∃ reg pid, s.registry.getNodePid name = some (reg, pid) ∧ Answers s name pid) ∧
    ∃ reg signalled, s.registry.kill name = some (reg, signalled) ∧ Signals s name signalled

/-- An active slot holds what its node was registered with, as far as it fits. -/
structure Tracked (s : State) : Prop where
  usable : s.registry.mutex.Usable
  terminated : ∀ i, (s.registry.nodes i).name.drop (nameSize - 1) = [0]
  owned : ∀ i, (s.registry.nodes i).active = (s.owners i).isSome
  named : ∀ i r, s.owners i = some r →
    cstr (s.registry.nodes i).name = r.name.bytes.take (nameSize - 1)
  pid : ∀ i r, s.owners i = some r → (s.registry.nodes i).pid = r.pid.number

theorem tracked_initial : Tracked ⟨.init, fun _ => none⟩ where
  usable := .inl rfl
  terminated _ := rfl
  owned _ := rfl
  named := nofun
  pid := nofun

theorem owner_become {s : State} {after : NodeRegistry} {registered : Option NodeRegistration}
    {i : Fin maxNodes} {r : NodeRegistration}
    (owner : (s.become after registered).owners i = some r) :
    (after.nodes i).active = true ∧
      ((s.registry.nodes i).active = true ∧ s.owners i = some r ∨
        (s.registry.nodes i).active = false ∧ registered = some r) := by
  simp only [State.become] at owner
  split at owner
  · rename_i active
    split at owner
    · exact ⟨active, .inl ⟨‹_›, owner⟩⟩
    · exact ⟨active, .inr ⟨Bool.eq_false_iff.mpr ‹_›, owner⟩⟩
  · contradiction

theorem Tracked.slot_become {s : State} (tracked : Tracked s) {after : NodeRegistry}
    {registered : Option NodeRegistration}
    (changes : NodeRegistry.Changes { s.registry with mutex := .held } after registered)
    {i : Fin maxNodes} {r : NodeRegistration}
    (owner : (s.become after registered).owners i = some r) :
    cstr (after.nodes i).name = r.name.bytes.take (nameSize - 1) ∧
      (after.nodes i).pid = r.pid.number := by
  obtain ⟨active, ⟨before, owner⟩ | ⟨before, same⟩⟩ := owner_become owner
  · rw [changes.kept i before active]
    exact ⟨tracked.named i r owner, tracked.pid i r owner⟩
  · obtain ⟨r', made, holds⟩ := changes.made i before active
    obtain rfl : r = r' := Option.some.inj (same.symm.trans made)
    rw [holds]
    exact ⟨cstr_strncpy [] r.name.nulFree (tracked.terminated i), rfl⟩

theorem Tracked.become {s : State} (tracked : Tracked s) {after : NodeRegistry}
    {registered : Option NodeRegistration}
    (changes : NodeRegistry.Changes { s.registry with mutex := .held } after registered)
    {mutex : RobustMutex} (usable : mutex.Usable) :
    Tracked (s.become { after with mutex := mutex } registered) where
  usable := usable
  terminated i := (changes.behind i).trans (tracked.terminated i)
  owned := by
    intro i
    simp only [State.become]
    cases active : (after.nodes i).active with
    | false => rfl
    | true =>
      cases before : (s.registry.nodes i).active with
      | true => simpa [before] using tracked.owned i
      | false =>
        obtain ⟨r, same, _⟩ := changes.made i before active
        simp [same]
  named i r owner := (tracked.slot_become changes owner).1
  pid i r owner := (tracked.slot_become changes owner).2

theorem Tracked.unlock {s : State} (tracked : Tracked s) {after : NodeRegistry}
    {registered : Option NodeRegistration}
    (changes : NodeRegistry.Changes { s.registry with mutex := .held } after registered) :
    Tracked (s.become after.unlock registered) :=
  tracked.become changes (.inl (by rw [changes.mutex]; rfl))

theorem Tracked.diesAfter {s : State} (tracked : Tracked s) {after : NodeRegistry}
    {writes : NodeRegistry → List (NodeRegistry → NodeRegistry)} {count : Nat}
    {registered : Option NodeRegistration}
    (changes : ∀ reg, NodeRegistry.Changes reg (reg.apply ((writes reg).take count)) registered)
    (died : s.registry.diesAfter writes count = some after) :
    Tracked (s.become after registered) := by
  obtain ⟨taken, locked, ended⟩ := Option.bind_eq_some_iff.mp died
  obtain ⟨rfl, _⟩ := NodeRegistry.lockRobust_eq locked
  obtain rfl := Option.some.inj ended
  exact tracked.become (changes _) (.inr (by rw [(changes _).mutex]; rfl))

theorem Tracked.same {s : State} (tracked : Tracked s) {mutex : RobustMutex}
    (usable : mutex.Usable) : Tracked (s.become { s.registry with mutex := mutex } none) :=
  tracked.become (.refl _ none) usable

theorem Tracked.dies {s : State} (tracked : Tracked s) {op : Operation} {count : Nat}
    {after : NodeRegistry} (died : op.dies count s.registry = some after) :
    Tracked (s.become after op.registered) := by
  cases op with
  | register r => exact tracked.diesAfter (fun reg => reg.registering r.name r.pid count) died
  | unregister nodeId =>
    simp only [Operation.dies] at died
    split at died
    · exact tracked.diesAfter (fun reg => reg.unregistering _ count) died
    · obtain rfl := Option.some.inj died
      exact tracked.same tracked.usable
  | lookup name =>
    refine tracked.diesAfter (fun reg => ?_) died
    rw [List.take_nil]
    exact .refl _ none

theorem Tracked.returns {s : State} (tracked : Tracked s) {op : Operation}
    {after : NodeRegistry} (ran : op.run s.registry = some after) :
    Tracked (s.become after op.registered) := by
  cases op with
  | register r =>
    obtain ⟨result, called, rfl⟩ := Option.map_eq_some_iff.mp ran
    obtain ⟨taken, locked, ended⟩ := Option.bind_eq_some_iff.mp called
    obtain ⟨rfl, _⟩ := NodeRegistry.lockRobust_eq locked
    obtain rfl := Option.some.inj ended
    exact tracked.unlock (NodeRegistry.registered _ r.name r.pid)
  | unregister nodeId =>
    simp only [Operation.run, NodeRegistry.unregisterNode] at ran
    split at ran
    · obtain ⟨taken, locked, ended⟩ := Option.bind_eq_some_iff.mp ran
      obtain ⟨rfl, _⟩ := NodeRegistry.lockRobust_eq locked
      obtain rfl := Option.some.inj ended
      exact tracked.unlock (NodeRegistry.unregistered _ _)
    · obtain rfl := Option.some.inj ran
      exact tracked.same tracked.usable
  | lookup name =>
    obtain ⟨result, called, rfl⟩ := Option.map_eq_some_iff.mp ran
    obtain ⟨taken, locked, ended⟩ := Option.bind_eq_some_iff.mp called
    obtain ⟨rfl, _⟩ := NodeRegistry.lockRobust_eq locked
    obtain rfl := Option.some.inj ended
    exact tracked.same (.inl rfl)

theorem Tracked.step {s t : State} (tracked : Tracked s) {e : Event}
    (taken : next s e = some t) : Tracked t := by
  cases e with
  | returns op =>
    obtain ⟨after, ran, rfl⟩ := Option.map_eq_some_iff.mp taken
    exact tracked.returns ran
  | dies op count =>
    obtain ⟨after, died, rfl⟩ := Option.map_eq_some_iff.mp taken
    exact tracked.dies died

theorem reachable_tracked {s : State} (reach : histories.Reachable s) : Tracked s := by
  refine reach.invariant Tracked ?_ ?_
  · rintro _ rfl
    exact tracked_initial
  · exact fun _ _ _ tracked _ taken => tracked.step taken

/-! ### What a lookup finds -/

def Short (s : State) : Prop := ∀ i r, s.owners i = some r → r.name.bytes.length < nameSize

instance (s : State) : Decidable (Short s) :=
  inferInstanceAs (Decidable (∀ i, ∀ r ∈ s.owners i, r.name.bytes.length < nameSize))

theorem Tracked.found {s : State} (tracked : Tracked s) {name : CString} {i : Fin maxNodes}
    (found : s.registry.findNode name = some i) :
    ∃ r, s.owners i = some r ∧ r.name.bytes.take (nameSize - 1) = name.bytes := by
  have holds := List.find?_some found
  simp only [NodeRegistry.matchesNode, Bool.and_eq_true, decide_eq_true_eq] at holds
  obtain ⟨r, owner⟩ := Option.isSome_iff_exists.mp ((tracked.owned i).symm.trans holds.1)
  exact ⟨r, owner, (tracked.named i r owner).symm.trans holds.2⟩

theorem Tracked.answers {s : State} (tracked : Tracked s) (short : Short s) (name : CString) :
    Answers s name (s.registry.targetPid name) := by
  have whole : ∀ i r, s.owners i = some r → r.name.bytes.take (nameSize - 1) = r.name.bytes := by
    intro i r owner
    exact List.take_of_length_le (Nat.le_pred_of_lt (short i r owner))
  unfold NodeRegistry.targetPid
  split
  · rename_i missing
    refine .inr ⟨?_, rfl⟩
    rintro i r owner rfl
    have free := List.find?_eq_none.mp missing i (List.mem_finRange i)
    have active : (s.registry.nodes i).active = true := by rw [tracked.owned i, owner]; rfl
    have stored := (tracked.named i r owner).trans (whole i r owner)
    exact free (by simp [NodeRegistry.matchesNode, active, stored])
  · rename_i i found
    obtain ⟨r, owner, stored⟩ := tracked.found found
    have same : r.name = name := CString.ext ((whole i r owner).symm.trans stored)
    exact .inl ⟨i, r, owner, same, tracked.pid i r owner⟩

theorem Tracked.looksUp_iff {s : State} (tracked : Tracked s) (name : CString) :
    LooksUp s name ↔ Answers s name (s.registry.targetPid name) := by
  have called := NodeRegistry.getNodePid_usable tracked.usable name
  constructor
  · rintro ⟨⟨reg, pid, returned, answers⟩, _⟩
    obtain rfl := (Prod.mk.inj (Option.some.inj (called.symm.trans returned))).2
    exact answers
  · intro answers
    refine ⟨⟨_, _, called, answers⟩, _, _, by rw [NodeRegistry.kill, called]; rfl, ?_⟩
    intro pid signalled
    rcases answers with ⟨i, r, owner, same, number⟩ | ⟨_, missing⟩
    · simp only [number] at signalled
      split at signalled
      · exact ⟨i, r, owner, same, (Option.some.inj signalled).symm⟩
      · contradiction
    · simp [missing] at signalled

theorem Tracked.long_missed {s : State} (tracked : Tracked s) {name : CString}
    (long : nameSize ≤ name.bytes.length) : s.registry.targetPid name = -1 := by
  unfold NodeRegistry.targetPid
  split
  · rfl
  · rename_i i found
    obtain ⟨r, owner, stored⟩ := tracked.found found
    have bound : (r.name.bytes.take (nameSize - 1)).length ≤ nameSize - 1 :=
      List.length_take_le ..
    rw [stored] at bound
    exact absurd (Nat.le_trans long bound) (by decide)

/-- In every state that any history of registrations, removals and deaths leads to, all lookups
are right just if no node is active that was registered under 64 characters or more. -/
theorem looks_up_iff {s : State} (reach : histories.Reachable s) :
    (∀ name, LooksUp s name) ↔ Short s := by
  have tracked := reachable_tracked reach
  constructor
  · intro right i r owner
    by_contra long
    have missed := tracked.long_missed (Nat.le_of_not_lt long)
    rcases (tracked.looksUp_iff r.name).mp (right r.name) with ⟨_, r', _, _, number⟩ | ⟨none, _⟩
    · have positive := r'.pid.positive
      omega
    · exact none i r owner rfl
  · intro short name
    exact (tracked.looksUp_iff name).mpr (tracked.answers short name)

def letters (count : Nat) : CString :=
  ⟨List.replicate count 0x61, fun member => absurd (List.eq_of_mem_replicate member) (by decide)⟩

def robot : Pid := ⟨7, by decide⟩

def camera : Pid := ⟨8, by decide⟩

theorem looks_up_iff_reused : ∃ s : State, histories.Reachable s ∧
    s.owners 0 = some ⟨letters 63, camera⟩ ∧ s.owners 1 = none ∧ ∀ name, LooksUp s name := by
  obtain ⟨s, reach, scene⟩ := Machine.reachable_of_check histories (fun _ _ => True) rfl
    [.returns (.register ⟨plain, robot⟩), .returns (.unregister 0),
      .returns (.register ⟨letters 63, camera⟩), .dies (.register ⟨plain, robot⟩) 2]
    (fun s => decide (s.owners 0 = some ⟨letters 63, camera⟩ ∧ s.owners 1 = none ∧ Short s))
    (by decide +kernel)
  obtain ⟨reused, free, short⟩ := of_decide_eq_true scene
  exact ⟨s, reach, reused, free, (looks_up_iff reach).mpr short⟩

/-- A node under 64 letters is found under 63 of them, and its process gets the signal. -/
theorem prefix_looked_up :
    ¬ ∀ s : State, histories.Reachable s → ∀ name, LooksUp s name := by
  intro claim
  obtain ⟨s, reach, scene⟩ := Machine.reachable_of_check histories (fun _ _ => True) rfl
    [.returns (.register ⟨letters 64, robot⟩)]
    (fun s => decide (s.registry.targetPid (letters 63) = 7 ∧
      ∀ i, ∀ r ∈ s.owners i, r.name ≠ letters 63)) (by decide +kernel)
  obtain ⟨pid, other⟩ := of_decide_eq_true scene
  have answers := ((reachable_tracked reach).looksUp_iff (letters 63)).mp (claim s reach _)
  rcases answers with ⟨i, r, owner, same, _⟩ | ⟨_, missing⟩
  · exact other i r owner same
  · rw [pid] at missing
    exact absurd missing (by decide)

end ComIpc.SystemManager.NodePids
