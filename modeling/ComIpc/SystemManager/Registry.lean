import ComIpc.Semantics.CString
import ComIpc.Semantics.Machine
import ComIpc.Semantics.SharedObjects
import ComIpc.SystemManager.Lock
import ComIpc.Types

/-! The topic registry and `createOrGetTopic`.

A handle is the number of the shared-memory object that was mapped. The calls
into the system that can fail of their own accord are an argument; `EEXIST` and
`ENOENT` follow from the name space.
-/

set_option autoImplicit false

namespace ComIpc.SystemManager

open Semantics

abbrev nameSize : Nat := 64

structure TopicInfo where
  name : Bytes
  active : Bool
  deriving DecidableEq, Repr

def TopicInfo.zero : TopicInfo := ⟨List.replicate nameSize 0, false⟩

structure SystemManagerShm where
  mutex : RobustMutex
  topicCount : Nat
  topics : Fin maxTopics → TopicInfo

def SystemManagerShm.init : SystemManagerShm := ⟨.unlocked, 0, fun _ => .zero⟩

/-- The calls of `createOrGetTopic` that fail for reasons of the system. -/
structure Failures where
  openExisting : Bool
  openExclusive : Bool
  retry : Bool
  ftruncate : Bool
  mmap : Bool
  deriving DecidableEq, Repr

def Failures.none : Failures := ⟨false, false, false, false, false⟩

def topicPrefix : Bytes :=
  ['/', 'r', 'o', 's', '_', 'i', 'p', 'c', '_', 't', 'o', 'p', 'i', 'c', '_'].map
    fun c => UInt8.ofNat c.toNat

def slash : UInt8 := 0x2f

def underscore : UInt8 := 0x5f

/-- Every slash but the leading one becomes an underscore. -/
def rewriteSlashes : Bytes → Bytes
  | [] => []
  | first :: rest => first :: rest.map fun c => if c = slash then underscore else c

def shmName (name : CString) : Bytes := rewriteSlashes (topicPrefix ++ name.bytes)

namespace SystemManagerShm

def lockRobust (mgr : SystemManagerShm) : Option SystemManagerShm :=
  (SystemManager.lockRobust mgr.mutex).map fun taken => { mgr with mutex := taken.1 }

def unlock (mgr : SystemManagerShm) : SystemManagerShm := { mgr with mutex := mgr.mutex.unlock }

theorem lockRobust_free {mgr : SystemManagerShm} (free : mgr.mutex = .unlocked) :
    mgr.lockRobust = some { mgr with mutex := .held } := by
  simp [lockRobust, SystemManager.lockRobust, RobustMutex.lock, free]

theorem unlock_taken {mgr : SystemManagerShm} (free : mgr.mutex = .unlocked) :
    ({ mgr with mutex := .held } : SystemManagerShm).unlock = mgr := by
  simp [unlock, ← free]

def matchesTopic (mgr : SystemManagerShm) (name : CString) (i : Fin maxTopics) : Bool :=
  decide (i.val < mgr.topicCount) && (mgr.topics i).active &&
    decide (strncmp (mgr.topics i).name name.bytes nameSize = 0)

def findTopic (mgr : SystemManagerShm) (name : CString) : Option (Fin maxTopics) :=
  (List.finRange maxTopics).find? (mgr.matchesTopic name)

/-- Register a topic in the next slot; the caller has checked that there is one. -/
def addTopic (mgr : SystemManagerShm) (name : CString) (room : mgr.topicCount < maxTopics) :
    SystemManagerShm :=
  let idx : Fin maxTopics := ⟨mgr.topicCount, room⟩
  { mgr with
    topicCount := mgr.topicCount + 1
    topics := Function.update mgr.topics idx
      ⟨strncpy (mgr.topics idx).name name.bytes (nameSize - 1), true⟩ }

end SystemManagerShm

/-- Exclusive creation; an object that exists under the name is taken for an orphan,
unlinked, and the creation tried once more. -/
def createOrReclaim (failures : Failures) (space : ShmSpace Bytes) (path : Bytes) :
    ShmSpace Bytes × Option Nat :=
  if failures.openExclusive then (space, none)
  else
    match space.openExclusive path with
    | some (space, obj) => (space, some obj)
    | none =>
      -- nothing tells an orphan from an object in use under the same rewritten name
      let space := space.unlink path
      if failures.retry then (space, none)
      else
        match space.openExclusive path with
        | some (space, obj) => (space, some obj)
        | none => (space, none)

/-- The manager mutex is released before an existing object is opened, and after the
registry has been written for a new one. -/
def createOrGetTopic (failures : Failures) (mgr : SystemManagerShm) (space : ShmSpace Bytes)
    (name : CString) (isPublisher : Bool) :
    Option (SystemManagerShm × ShmSpace Bytes × Option Nat) := do
  let mgr ← mgr.lockRobust
  match mgr.findTopic name with
  | some _ =>
    if failures.openExisting then some (mgr.unlock, space, none)
    else
      match space.openExisting (shmName name) with
      | none => some (mgr.unlock, space, none)
      | some obj =>
        -- the count of subscribers is the topic's own and changes in a step of its own
        some (mgr.unlock, space, if failures.mmap then none else some obj)
  | none =>
    if isPublisher = false then some (mgr.unlock, space, none)
    else if room : mgr.topicCount < maxTopics then
      match createOrReclaim failures space (shmName name) with
      | (space, none) => some (mgr.unlock, space, none)
      | (space, some obj) =>
        -- an object that cannot be sized or mapped stays linked
        if failures.ftruncate || failures.mmap then some (mgr.unlock, space, none)
        else some ((mgr.addTopic name room).unlock, space, some obj)
    else some (mgr.unlock, space, none)

/-! Histories of calls, with every handle that was returned. -/

structure Handle where
  name : CString
  isPublisher : Bool
  object : Nat
  deriving DecidableEq

structure History where
  mgr : SystemManagerShm
  space : ShmSpace Bytes
  handles : List Handle

structure Call where
  name : CString
  isPublisher : Bool
  deriving DecidableEq

/-- One call in which the system itself never fails. -/
def call (s : History) (c : Call) : Option History := do
  let (mgr, space, handle) ← createOrGetTopic .none s.mgr s.space c.name c.isPublisher
  some ⟨mgr, space,
    s.handles ++ (handle.map fun obj => ⟨c.name, c.isPublisher, obj⟩).toList⟩

/-- Histories start with an empty registry; objects of earlier systems may be left over. -/
def histories : Machine History Call where
  initial := fun s => s.mgr = .init ∧ s.handles = []
  next := call

end ComIpc.SystemManager
