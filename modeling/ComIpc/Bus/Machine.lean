import ComIpc.MemoryPool
import ComIpc.Topic.Delivery

/-! All topics of a system and the one pool that carries their payloads.

A `publishRaw` is three steps: allocate a block, copy the payload in, enqueue the
header. A publish that finds `g_shutdown_requested` set returns before its first step
and takes none. A `receiveRaw` takes the header in its tenure of the topic mutex and
copies the payload out in a step of its own. `overwritten`, `sources` and `receipts`
are ghosts: who wrote over whose block, which call a publication came from, and what
was copied out.
-/

set_option autoImplicit false

namespace ComIpc.Bus

open Semantics

inductive Stage where
  | allocated
  | copied
  /-- The header is in the ring, with this number. -/
  | enqueued (seq : UInt32)
  deriving DecidableEq, Repr

/-- A call of `publishRaw` that got its block. -/
structure PublishCall (T : Type) where
  topic : T
  type : MessageType
  data : Bytes
  offset : UInt32
  stage : Stage
  overwritten : Bool
  deriving DecidableEq, Repr

structure Loan where
  offset : UInt32
  size : Nat
  deriving DecidableEq, Repr

/-- A raw receive that succeeded: its header and the bytes it copied out. A receipt is
intact when nobody wrote over the block between the two copies. -/
structure Receipt (T K Id : Type) where
  topic : T
  subscriber : Id
  header : MessageHeader
  payload : Bytes
  source : Option K
  intact : Bool
  deriving DecidableEq, Repr

structure State (T K Id : Type) where
  pool : MemoryPool
  topics : T → Topic.State Id
  calls : K → Option (PublishCall T)
  loans : List Loan
  sources : T → List (Option K)
  receipts : List (Receipt T K Id)

inductive Event (T K Id : Type) where
  | allocate (k : K) (topic : T) (type : MessageType) (data : Bytes)
  | copyIn (k : K)
  | enqueue (k : K) (now : Int64)
  | loanRaw (size : Nat)
  /-- The user writes through a loaned pointer. -/
  | writeLoaned (offset : Nat) (bytes : Bytes)
  | publishLoaned (topic : T) (type : MessageType) (position size : Nat) (now : Int64)
  | attach (topic : T)
  | construct (topic : T) (i : Id)
  | destroy (topic : T) (i : Id)
  | receive (topic : T) (i : Id) (call : Topic.ReceiveCall) (shutdown : Bool)
  | wake (topic : T) (i : Id) (cause : Ret) (shutdown : Bool)
  | finish (topic : T) (i : Id)
  deriving DecidableEq, Repr

section
variable {T K Id : Type}

/-- The calls whose stored payload a write damages. -/
def damage (calls : K → Option (PublishCall T)) (offset size : Nat) : K → Option (PublishCall T) :=
  fun k => (calls k).map fun call => { call with
    overwritten := call.overwritten || decide (call.stage ≠ .allocated ∧
      ByteMemory.Overlap offset size call.offset.toNat call.data.length) }

/-- The call a publication of a topic came from; loaned publications have none. -/
def State.source (s : State T K Id) (topic : T) (publication : Nat) : Option K :=
  (Topic.nth (s.sources topic) publication).join

def State.intact (s : State T K Id) (source : Option K) : Bool :=
  (source.bind s.calls).any fun call => !call.overwritten

def State.copyOut (s : State T K Id) (topic : T) (i : Id) (phase : Topic.Phase) :
    List (Receipt T K Id) :=
  match phase with
  | .holding (.raw size _) header publication =>
    if MessageHeader.bytes + header.dataSize.toNat ≤ size then
      let source := s.source topic publication
      [⟨topic, i, header, s.pool.data.load header.poolOffset.toNat header.dataSize.toNat, source,
        s.intact source⟩]
    else []
  | _ => []

variable [DecidableEq T] [DecidableEq K] [DecidableEq Id]

def State.onTopic (s : State T K Id) (topic : T) (e : Topic.Event Id) :
    Option (State T K Id) := do
  let after ← Topic.next (s.topics topic) e
  some { s with topics := Function.update s.topics topic after }

def State.allocate (s : State T K Id) (k : K) (topic : T) (type : MessageType) (data : Bytes) :
    Option (State T K Id) := do
  guard (s.calls k).isNone
  let (pool, offset) ← (s.pool.allocate data.length).toOption
  some { s with
    pool := pool
    calls := Function.update s.calls k (some ⟨topic, type, data, offset, .allocated, false⟩) }

def State.copyIn (s : State T K Id) (k : K) : Option (State T K Id) := do
  let call ← s.calls k
  guard (call.stage = .allocated)
  -- the block may have been handed out a second time since; nothing looks
  some { s with
    pool := { s.pool with data := s.pool.data.store call.offset.toNat call.data }
    calls := Function.update (damage s.calls call.offset.toNat call.data.length) k
      (some { call with stage := .copied }) }

def State.enqueue (s : State T K Id) (k : K) (now : Int64) : Option (State T K Id) := do
  let call ← s.calls k
  guard (call.stage = .copied)
  -- its number is the one that this tenure of the topic mutex counts up to
  let s' ← s.onTopic call.topic (.publishRaw ⟨call.type, call.data.length, call.offset, now⟩)
  some { s' with
    calls := Function.update s.calls k
      (some { call with stage := .enqueued ((s.topics call.topic).shm.seq + 1) })
    sources := Function.update s.sources call.topic (s.sources call.topic ++ [some k]) }

def State.loanRaw (s : State T K Id) (size : Nat) : Option (State T K Id) := do
  let (pool, offset) ← (s.pool.allocate size).toOption
  some { s with pool := pool, loans := s.loans ++ [⟨offset, size⟩] }

def State.writeLoaned (s : State T K Id) (offset : Nat) (bytes : Bytes) :
    Option (State T K Id) := do
  -- a loan never ends: the pointer stays usable after the publish and after any wrap
  guard (s.loans.any fun loan =>
    loan.offset.toNat ≤ offset ∧ offset + bytes.length ≤ loan.offset.toNat + loan.size)
  some { s with
    pool := { s.pool with data := s.pool.data.store offset bytes }
    calls := damage s.calls offset bytes.length }

def State.publishLoaned (s : State T K Id) (topic : T) (type : MessageType) (position size : Nat)
    (now : Int64) : Option (State T K Id) := do
  let offset ← (MemoryPool.getOffset position).toOption
  let s' ← s.onTopic topic (.publishLoaned ⟨type, size, offset, now⟩)
  some { s' with sources := Function.update s.sources topic (s.sources topic ++ [none]) }

def State.finish (s : State T K Id) (topic : T) (i : Id) : Option (State T K Id) := do
  let sub ← (s.topics topic).subscribers i
  let s' ← s.onTopic topic (.finish i)
  some { s' with receipts := s.receipts ++ s.copyOut topic i sub.phase }

def next (s : State T K Id) : Event T K Id → Option (State T K Id)
  | .allocate k topic type data => s.allocate k topic type data
  | .copyIn k => s.copyIn k
  | .enqueue k now => s.enqueue k now
  | .loanRaw size => s.loanRaw size
  | .writeLoaned offset bytes => s.writeLoaned offset bytes
  | .publishLoaned topic type position size now => s.publishLoaned topic type position size now
  | .attach topic => s.onTopic topic .attach
  | .construct topic i => s.onTopic topic (.construct i)
  | .destroy topic i => s.onTopic topic (.destroy i)
  | .receive topic i call shutdown => s.onTopic topic (.receive i call shutdown)
  | .wake topic i cause shutdown => s.onTopic topic (.wake i cause shutdown)
  | .finish topic i => s.finish topic i

end

def State.init {T K Id : Type} : State T K Id :=
  ⟨.init, fun _ => ⟨.init, fun _ => none, []⟩, fun _ => none, [], fun _ => [], []⟩

def machine (T K Id : Type) [DecidableEq T] [DecidableEq K] [DecidableEq Id] :
    Machine (State T K Id) (Event T K Id) where
  initial := fun s => s = .init
  next := next

end ComIpc.Bus
