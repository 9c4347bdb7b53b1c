import ComIpc.Semantics.Machine
import ComIpc.Topic.Shm

/-! One topic with any number of publishers and subscribers.

A step is one tenure of the topic mutex, or the part of a receive after it. A
tenure ends with the unlock, with the release inside a condition wait, or with
the death of the process. `published` and the counters `joined`, `seen` and
`publication` are ghosts: they number the publications whose writes were all
made and are read by no step.
-/

set_option autoImplicit false

namespace ComIpc.Topic

open Semantics SystemManager

inductive ReceiveCall where
  | raw (bufferSize : Nat) (timeoutMs : Int)
  | loaned (timeoutMs : Int)
  deriving DecidableEq, Repr

def ReceiveCall.timeoutMs : ReceiveCall → Int
  | raw _ timeoutMs => timeoutMs
  | loaned timeoutMs => timeoutMs

/-- `Subscriber::LoanedMessage`; the pointer is given as its offset in the pool. -/
structure LoanedMessage where
  data : UInt32
  size : Nat
  seq : UInt32
  deriving DecidableEq, Repr

def LoanedMessage.of (header : MessageHeader) : LoanedMessage :=
  ⟨header.poolOffset, header.dataSize.toNat, header.seq.toUInt32⟩

inductive Returned where
  | raw (header : MessageHeader)
  | loaned (message : LoanedMessage)
  deriving DecidableEq, Repr

def ReceiveCall.view (call : ReceiveCall) (header : MessageHeader) : Returned :=
  match call with
  | .raw _ _ => .raw header
  | .loaned _ => .loaned (.of header)

/-- A successful receive, with the number of publications that were complete when it
took the lock. -/
structure Delivery where
  publication : Nat
  call : ReceiveCall
  returned : Returned
  deriving DecidableEq, Repr

inductive Phase where
  | idle
  /-- Blocked in the condition wait of the receive loop. -/
  | waiting (call : ReceiveCall)
  /-- The header is copied and the mutex released; the payload is not yet copied out. -/
  | holding (call : ReceiveCall) (header : MessageHeader) (publication : Nat)
  deriving DecidableEq, Repr

structure Subscriber where
  lastSeq : UInt32
  phase : Phase
  joined : Nat
  seen : Nat
  deliveries : List Delivery
  deriving DecidableEq, Repr

structure State (Id : Type) where
  shm : TopicShm
  subscribers : Id → Option Subscriber
  published : List MessageHeader

inductive Event (Id : Type) where
  | publishRaw (p : Publication)
  | publishLoaned (p : Publication)
  /-- A publisher dies in its critical section after `count` writes. -/
  | publisherDies (p : Publication) (count : Nat)
  /-- The step of `createOrGetTopic` for a subscriber of an existing topic. -/
  | attach
  | construct (i : Id)
  | destroy (i : Id)
  | receive (i : Id) (call : ReceiveCall) (shutdown : Bool)
  | wake (i : Id) (cause : Ret) (shutdown : Bool)
  | finish (i : Id)
  /-- A subscriber's process dies, inside a tenure of the mutex or outside. -/
  | subscriberDies (i : Id) (holding : Bool)
  deriving DecidableEq, Repr

/-- The receive loop and the header copy, entered with the mutex held. Each way out
releases the mutex: the two returns, the condition wait and the early unlock. -/
def receiveLocked (shm : TopicShm) (lastSeq : UInt32) (call : ReceiveCall) (shutdown : Bool)
    (publications : Nat) : TopicShm × Phase :=
  if lastSeq ≥ shm.seq ∧ shutdown = false then
    -- nothing new: a timeout of 0 gives up at once, a negative one waits for ever
    if call.timeoutMs = 0 then (shm.unlock, .idle) else (shm.unlock, .waiting call)
  else if shutdown then (shm.unlock, .idle)
  else (shm.unlock, .holding call shm.newest publications)

/-- After a wait the loop looks at the return code only for `ETIMEDOUT`, and only where
it used a timeout; every other code, `EOWNERDEAD` included, goes back to the loop test. -/
def wakeLocked (shm : TopicShm) (lastSeq : UInt32) (call : ReceiveCall) (ret : Ret)
    (shutdown : Bool) (publications : Nat) : TopicShm × Phase :=
  if call.timeoutMs > 0 ∧ ret = .timedOut then (shm.unlock, .idle)
  else receiveLocked shm lastSeq call shutdown publications

/-- The part of a receive after the mutex is released. A raw receive copies out only what
fits the caller's buffer; a copy that leaves the pool has no defined result. -/
def finish (sub : Subscriber) (call : ReceiveCall) (header : MessageHeader)
    (publication : Nat) : Option Subscriber :=
  let delivered : Subscriber := { sub with
    lastSeq := header.seq.toUInt32
    phase := .idle
    seen := publication
    deliveries := sub.deliveries ++ [⟨publication, call, call.view header⟩] }
  match call with
  | .loaned _ => some delivered
  | .raw size _ =>
    if MessageHeader.bytes + header.dataSize.toNat ≤ size then
      if header.poolOffset.toNat + header.dataSize.toNat ≤ poolSize then some delivered else none
    -- too small a buffer: `last_seq_` stays, so the newest message is offered again
    else some { sub with phase := .idle }

variable {Id : Type} [DecidableEq Id]

def State.put (s : State Id) (i : Id) (sub : Subscriber) : State Id :=
  { s with subscribers := Function.update s.subscribers i (some sub) }

@[simp] theorem put_self (s : State Id) (i : Id) (sub : Subscriber) :
    (s.put i sub).subscribers i = some sub := Function.update_self _ _ _

@[simp] theorem put_published (s : State Id) (i : Id) (sub : Subscriber) :
    (s.put i sub).published = s.published := rfl

def next (s : State Id) : Event Id → Option (State Id)
  -- the two differ in how the payload gets into the pool, which is not the topic's matter
  | .publishRaw p | .publishLoaned p => do
    let shm ← publishLocked p s.shm
    some { s with shm := shm, published := s.published ++ [p.header (s.shm.seq + 1)] }
  | .publisherDies p count => do
    let shm ← publishDies p count s.shm
    let published :=
      if enqueueLength ≤ count then s.published ++ [p.header (s.shm.seq + 1)] else s.published
    some { s with shm := shm, published := published }
  | .attach => do
    let shm ← s.shm.lockRobust
    some { s with shm := { shm with activeSubscribers := shm.activeSubscribers + 1 }.unlock }
  | .construct i => do
    let shm ← s.shm.lockRobust
    guard (s.subscribers i).isNone
    let joined := s.published.length
    some ({ s with shm := shm.unlock }.put i ⟨shm.seq, .idle, joined, joined, []⟩)
  | .destroy i => do
    let sub ← s.subscribers i
    let shm ← s.shm.lockRobust
    guard (sub.phase = .idle)
    let active := if shm.activeSubscribers > 0 then shm.activeSubscribers - 1
      else shm.activeSubscribers
    some { s with
      shm := { shm with activeSubscribers := active }.unlock
      subscribers := Function.update s.subscribers i none }
  | .receive i call shutdown => do
    let sub ← s.subscribers i
    let shm ← s.shm.lockRobust
    guard (sub.phase = .idle)
    let (shm, phase) := receiveLocked shm sub.lastSeq call shutdown s.published.length
    some ({ s with shm := shm }.put i { sub with phase := phase })
  -- a spurious wake-up is one with the cause `ok`
  | .wake i cause shutdown => do
    let sub ← s.subscribers i
    let (mutex, ret) ← s.shm.mutex.reacquire cause
    match sub.phase with
    | .waiting call =>
      let (shm, phase) := wakeLocked { s.shm with mutex := mutex } sub.lastSeq call ret
        shutdown s.published.length
      some ({ s with shm := shm }.put i { sub with phase := phase })
    | _ => none
  | .finish i => do
    let sub ← s.subscribers i
    match sub.phase with
    | .holding call header publication =>
      (finish sub call header publication).map fun sub => s.put i sub
    | _ => none
  -- nobody corrects `active_subscribers` for a dead subscriber
  | .subscriberDies i holding => do
    let mutex ← dieAt holding s.shm.mutex
    guard (s.subscribers i).isSome
    some { s with
      shm := { s.shm with mutex := mutex }
      subscribers := Function.update s.subscribers i none }

def machine (Id : Type) [DecidableEq Id] : Machine (State Id) (Event Id) where
  initial := fun s => s = ⟨.init, fun _ => none, []⟩
  next := next

end ComIpc.Topic
