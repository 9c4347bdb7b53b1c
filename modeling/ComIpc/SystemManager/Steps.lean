import ComIpc.SystemManager.Services

/-! `createOrGetTopic` and `createOrGetService`, one system call at a time.

Any number of processes are inside the two functions at once. The manager mutex orders the
lookups, the creations and the entries of the registry; an object that a lookup has found is
opened after the mutex was released.
-/

set_option autoImplicit false

namespace ComIpc.SystemManager.Steps

open Semantics

inductive Kind where
  | topic
  | service
  deriving DecidableEq

inductive Field where
  | mutex
  | condNewMsg
  | writeIndex
  | seq
  | activeSubscribers
  | condRequest
  | condResponse
  | hasRequest
  | hasResponse
  deriving DecidableEq

def Kind.fields : Kind → List Field
  | .topic => [.mutex, .condNewMsg, .writeIndex, .seq, .activeSubscribers]
  | .service => [.mutex, .condRequest, .condResponse, .hasRequest, .hasResponse]

def Kind.shmName : Kind → CString → Bytes
  | .topic => SystemManager.shmName
  | .service => serviceShmName

structure Object where
  sized : Bool
  written : List Field
  deriving DecidableEq

def Object.empty : Object := ⟨false, []⟩

/-- One of the two tables of the registry; `MAX_SERVICES` is `MAX_TOPICS`. -/
structure Table where
  count : Nat
  slots : Fin maxTopics → TopicInfo

def Table.init : Table := ⟨0, fun _ => .zero⟩

def Table.find (table : Table) (name : CString) : Option (Fin maxTopics) :=
  SystemManagerShm.findTopic ⟨.unlocked, table.count, table.slots⟩ name

def storedName (slot : TopicInfo) : CString := ⟨cstr slot.name, zero_not_mem_cstr slot.name⟩

structure Shared where
  tables : Kind → Table
  space : ShmSpace Bytes
  objects : Nat → Object
  -- no part of the system: the object was created while an entry for it was active, and that
  -- creation has not come to its last initialisation
  replacing : Bytes → Bool

namespace Shared

def listed (sh : Shared) (kind : Kind) (path : Bytes) : Bool :=
  (List.finRange maxTopics).any fun i =>
    decide (i.val < (sh.tables kind).count) && ((sh.tables kind).slots i).active &&
      decide (kind.shmName (storedName ((sh.tables kind).slots i)) = path)

def unlink (sh : Shared) (path : Bytes) : Shared := { sh with space := sh.space.unlink path }

def openExclusive (sh : Shared) (kind : Kind) (path : Bytes) : Option (Shared × Nat) :=
  (sh.space.openExclusive path).map fun created =>
    ({ sh with
      space := created.1
      replacing := Function.update sh.replacing path
        (sh.replacing path || sh.listed kind path) }, created.2)

def setSize (sh : Shared) (obj : Nat) : Shared :=
  let object := { sh.objects obj with sized := true }
  { sh with objects := Function.update sh.objects obj object }

def write (sh : Shared) (obj : Nat) (field : Field) : Shared :=
  let object := sh.objects obj
  { sh with
    objects := Function.update sh.objects obj
      { object with written := object.written ++ [field] } }

def complete (sh : Shared) (path : Bytes) : Shared :=
  { sh with replacing := Function.update sh.replacing path false }

def setTable (sh : Shared) (kind : Kind) (table : Table) : Shared :=
  { sh with tables := Function.update sh.tables kind table }

end Shared

/-- A call of one of the two functions; `creator` is `is_publisher` or `is_server`. -/
structure Access where
  kind : Kind
  name : CString
  creator : Bool
  deriving DecidableEq

def Access.path (c : Access) : Bytes := c.kind.shmName c.name

inductive Pc where
  | idle
  | locking (c : Access)
  | looking (c : Access)
  /-- Unlock the manager mutex, and then open what was found. -/
  | releasing (c : Access)
  | opening (c : Access)
  | mapping (c : Access) (obj : Nat)
  /-- A subscriber counts itself under the topic's own mutex. -/
  | joining (c : Access) (obj : Nat)
  /-- A server that is started again unlinks the object. -/
  | wiping (c : Access)
  | creating (c : Access) (restart : Bool)
  /-- Unlink an object that no entry stands for, and create once more. -/
  | reclaiming (c : Access)
  | retrying (c : Access)
  | sizing (c : Access) (restart : Bool) (obj : Nat)
  | mappingNew (c : Access) (restart : Bool) (obj : Nat)
  | initialising (c : Access) (restart : Bool) (obj : Nat) (rest : List Field)
  /-- The entry: its number is taken, its name written and its flag set. -/
  | counting (c : Access) (obj : Nat)
  | naming (c : Access) (obj : Nat) (idx : Fin maxTopics)
  | activating (c : Access) (obj : Nat) (idx : Fin maxTopics)
  /-- Unlock the manager mutex, and then return. -/
  | leaving (c : Access) (result : Option Nat)
  | returning (c : Access) (result : Option Nat)
  deriving DecidableEq

def Pc.holding : Pc → Bool
  | .idle | .locking _ | .opening _ | .mapping _ _ | .joining _ _ | .returning _ _ => false
  | _ => true

/-- The next step where the manager mutex is neither taken nor released; `fails` is the outcome
of a system call that the name space does not decide. -/
def advance (sh : Shared) (fails : Bool) : Pc → Option (Shared × Pc)
  | .looking c =>
    match (sh.tables c.kind).find c.name with
    | some _ =>
      if c.kind = .service ∧ c.creator = true then some (sh, .wiping c)
      else some (sh, .releasing c)
    | none =>
      if c.creator = true ∧ (sh.tables c.kind).count < maxTopics then some (sh, .creating c false)
      else some (sh, .leaving c none)
  | .opening c =>
    if fails then some (sh, .returning c none)
    else
      match sh.space.openExisting c.path with
      | none => some (sh, .returning c none)
      | some obj => some (sh, .mapping c obj)
  | .mapping c obj =>
    if fails then some (sh, .returning c none)
    else if c.kind = .topic ∧ c.creator = false then some (sh, .joining c obj)
    else some (sh, .returning c (some obj))
  | .joining c obj =>
    -- a mutex that cannot be locked is an exception, and nothing is returned
    some (sh, .returning c (if fails then none else some obj))
  | .wiping c => some (if fails then sh else sh.unlink c.path, .creating c true)
  | .creating c restart =>
    if fails then some (sh, .leaving c none)
    else
      match sh.openExclusive c.kind c.path with
      | some (sh, obj) => some (sh, .sizing c restart obj)
      | none => some (sh, if restart then .leaving c none else .reclaiming c)
  | .reclaiming c => some (if fails then sh else sh.unlink c.path, .retrying c)
  | .retrying c =>
    if fails then some (sh, .leaving c none)
    else
      match sh.openExclusive c.kind c.path with
      | some (sh, obj) => some (sh, .sizing c false obj)
      | none => some (sh, .leaving c none)
  | .sizing c restart obj =>
    -- an object that cannot be sized or mapped stays linked
    if fails then some (sh, .leaving c none) else some (sh.setSize obj, .mappingNew c restart obj)
  | .mappingNew c restart obj =>
    if fails then some (sh, .leaving c none)
    else some (sh, .initialising c restart obj c.kind.fields)
  | .initialising c restart obj (field :: rest) =>
    if rest = [] then
      some ((sh.write obj field).complete c.path,
        if restart then .leaving c (some obj) else .counting c obj)
    else some (sh.write obj field, .initialising c restart obj rest)
  | .counting c obj =>
    let table := sh.tables c.kind
    -- the room was checked with the lookup, under the same lock
    if room : table.count < maxTopics then
      some (sh.setTable c.kind { table with count := table.count + 1 },
        .naming c obj ⟨table.count, room⟩)
    else none
  | .naming c obj idx =>
    let table := sh.tables c.kind
    let slot := table.slots idx
    some (sh.setTable c.kind { table with
      slots := Function.update table.slots idx
        { slot with name := strncpy slot.name c.name.bytes (nameSize - 1) } },
      .activating c obj idx)
  | .activating c obj idx =>
    let table := sh.tables c.kind
    some (sh.setTable c.kind { table with
      slots := Function.update table.slots idx { table.slots idx with active := true } },
      .leaving c (some obj))
  | _ => none

structure State (P : Type) where
  mutex : RobustMutex
  shared : Shared
  pcs : P → Pc
  returned : List (Access × Nat)

inductive Event (P : Type) where
  | call (p : P) (c : Access)
  | step (p : P) (fails : Bool)
  /-- The process dies, and a new one takes its place. -/
  | dies (p : P)
  deriving DecidableEq

section
variable {P : Type} [DecidableEq P]

def State.goto (s : State P) (p : P) (pc : Pc) : State P :=
  { s with pcs := Function.update s.pcs p pc }

def next (s : State P) : Event P → Option (State P)
  | .call p c => do
    guard (s.pcs p = .idle)
    some (s.goto p (.locking c))
  | .step p fails =>
    match s.pcs p with
    | .idle => none
    | .locking c => do
      let (taken, _) ← lockRobust s.mutex
      some ({ s with mutex := taken }.goto p (.looking c))
    | .releasing c => some ({ s with mutex := s.mutex.unlock }.goto p (.opening c))
    | .leaving c result => some ({ s with mutex := s.mutex.unlock }.goto p (.returning c result))
    | .returning c result =>
      let handle := (result.map fun obj => (c, obj)).toList
      some ({ s with returned := s.returned ++ handle }.goto p .idle)
    | pc => do
      let (shared, after) ← advance s.shared fails pc
      some ({ s with shared := shared }.goto p after)
  | .dies p =>
    let mutex := if (s.pcs p).holding then s.mutex.ownerDies else s.mutex
    some ({ s with mutex := mutex }.goto p .idle)

/-- The registry is empty; objects of earlier systems may be left over, in any condition. -/
def calls (P : Type) [DecidableEq P] : Machine (State P) (Event P) where
  initial := fun s => s.mutex = .unlocked ∧ (s.shared.tables = fun _ => .init) ∧
    (∀ obj, s.shared.space.count ≤ obj → s.shared.objects obj = .empty) ∧
    (s.shared.replacing = fun _ => false) ∧ (s.pcs = fun _ => .idle) ∧ s.returned = []
  next := next

end

end ComIpc.SystemManager.Steps
