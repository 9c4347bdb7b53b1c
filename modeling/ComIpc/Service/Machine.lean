import ComIpc.Semantics.Machine
import ComIpc.SystemManager.Lock
import ComIpc.Types

/-! One service: the slot in shared memory, its clients and the server's threads.

A step is one tenure of the service mutex. `ticket`, `posts`, `served` and
`returned` are ghosts: they number the requests that were posted and record what
the callback and the callers saw. No step reads them.
-/

set_option autoImplicit false

namespace ComIpc.Service

open Semantics SystemManager

/-- `ServiceRequestHeader`. -/
structure Request where
  clientPid : Int32
  requestId : Int32
  dataSize : UInt32
  data : Bytes
  ticket : Nat
  deriving DecidableEq, Repr

/-- `ServiceResponseHeader`. -/
structure Response where
  requestId : Int32
  dataSize : UInt32
  data : Bytes
  ticket : Nat
  deriving DecidableEq, Repr

structure ServiceShm where
  mutex : RobustMutex
  hasRequest : Bool
  hasResponse : Bool
  request : Request
  response : Response

/-- The arguments of `ServiceClient::call`: the request and `sizeof(TResp)`. -/
structure Call where
  request : Payload
  respSize : Nat
  respFits : respSize ≤ maxMsgSize
  deriving DecidableEq, Repr

/-- What the callback left behind: its result, `local_resp.data` and `resp_size`. -/
structure Outcome where
  success : Bool
  data : Bytes
  respSize : Nat
  deriving DecidableEq, Repr

namespace ServiceShm

/-- What `createOrGetService` leaves in a new object. -/
def init : ServiceShm :=
  ⟨.unlocked, false, false, ⟨0, 0, 0, List.replicate maxMsgSize 0, 0⟩,
    ⟨0, 0, List.replicate maxMsgSize 0, 0⟩⟩

def lockRobust (shm : ServiceShm) : Option ServiceShm :=
  (SystemManager.lockRobust shm.mutex).map fun taken => { shm with mutex := taken.1 }

theorem lockRobust_eq {shm locked : ServiceShm} (taken : shm.lockRobust = some locked) :
    locked = { shm with mutex := .held } ∧ shm.mutex.Usable := by
  obtain ⟨⟨mutex, recovered⟩, acquired, rfl⟩ := Option.map_eq_some_iff.mp taken
  obtain ⟨same, usable⟩ := lockRobust_held acquired
  exact ⟨by rw [same], usable⟩

def unlock (shm : ServiceShm) : ServiceShm := { shm with mutex := shm.mutex.unlock }

def post (shm : ServiceShm) (clientPid requestId : Int32) (call : Call) (ticket : Nat) :
    ServiceShm :=
  { shm with
    request := ⟨clientPid, requestId, UInt32.ofNat call.request.bytes.length,
      memcpy shm.request.data call.request.bytes call.request.bytes.length, ticket⟩
    hasRequest := true
    hasResponse := false }

/-- A client leaves a failed wait: the channel is reset and a dead owner's mutex repaired. -/
def giveUp (shm : ServiceShm) (ret : Ret) : ServiceShm :=
  { shm with
    hasRequest := false
    hasResponse := false
    mutex := if ret = .ownerDead then shm.mutex.consistent else shm.mutex }

def complete (shm : ServiceShm) (request : Request) (outcome : Outcome) : ServiceShm :=
  { shm with
    response := if outcome.success then
      ⟨request.requestId, UInt32.ofNat outcome.respSize, outcome.data, request.ticket⟩
      else shm.response
    hasResponse := shm.hasResponse || outcome.success
    -- also after a failure: the slot is free again and its client waits until it times out
    hasRequest := false }

end ServiceShm

inductive ClientPhase where
  | idle
  | waitFree (call : Call)
  | waitResponse (call : Call) (ticket : Nat)
  deriving DecidableEq, Repr

structure Client where
  pid : Int32
  nextReqId : Int32
  phase : ClientPhase
  deriving DecidableEq, Repr

inductive Driver where
  | idle
  | waiting
  /-- Inside the callback, with the mutex released. -/
  | serving (request : Request)
  deriving DecidableEq, Repr

structure Post (C : Type) where
  client : C
  call : Call
  deriving DecidableEq, Repr

structure Served where
  ticket : Nat
  data : Bytes
  dataSize : UInt32
  outcome : Outcome
  deriving DecidableEq, Repr

structure Returned (C : Type) where
  client : C
  call : Call
  ticket : Nat
  response : Bytes
  deriving DecidableEq, Repr

structure State (C D : Type) where
  shm : ServiceShm
  clients : C → Option Client
  drivers : D → Driver
  posts : List (Post C)
  served : List Served
  returned : List (Returned C)

/-- The flags of an event are what the step reads from `g_shutdown_requested` and
`running_`; `interrupted` is the same flag once the request is posted. -/
inductive Event (C D : Type) where
  | connect (c : C) (pid : Int32)
  | call (c : C) (call : Call) (shutdown interrupted : Bool)
  | freeWake (c : C) (cause : Ret) (shutdown interrupted : Bool)
  | responseWake (c : C) (cause : Ret) (shutdown : Bool)
  | serviceLoop (d : D) (running shutdown : Bool)
  | loopWake (d : D) (cause : Ret) (running shutdown : Bool)
  | spinOnce (d : D)
  | complete (d : D) (outcome : Outcome)
  /-- A process dies. When it was holding the mutex, whatever part of its writes was made
  is found in the slot. -/
  | clientDies (c : C) (holding : Bool) (leftover : ServiceShm)
  | driverDies (d : D) (holding : Bool) (leftover : ServiceShm)

section
variable {C D : Type} [DecidableEq C] [DecidableEq D]

def State.putClient (s : State C D) (c : C) (client : Client) : State C D :=
  { s with clients := Function.update s.clients c (some client) }

def State.putDriver (s : State C D) (d : D) (driver : Driver) : State C D :=
  { s with drivers := Function.update s.drivers d driver }

def State.unlock (s : State C D) : State C D := { s with shm := s.shm.unlock }

/-- `call` from the test of its first loop on, with the mutex held. -/
def postWhenFree (s : State C D) (c : C) (client : Client) (call : Call)
    (shutdown interrupted : Bool) : State C D :=
  if s.shm.hasRequest ∧ shutdown = false then
    s.unlock.putClient c { client with phase := .waitFree call }
  else if shutdown then s.unlock.putClient c { client with phase := .idle }
  else
    -- the wait for the response begins in the tenure that posted the request
    let requestId := client.nextReqId + 1
    let ticket := s.posts.length
    let posted : State C D := { s with
      shm := s.shm.post client.pid requestId call ticket
      posts := s.posts ++ [⟨c, call⟩] }
    posted.unlock.putClient c { client with
      nextReqId := requestId
      phase := if interrupted then .idle else .waitResponse call ticket }

/-- `call` from the test of its second loop on. The slot keeps a response that is refused. -/
def takeResponse (s : State C D) (c : C) (client : Client) (call : Call) (ticket : Nat)
    (shutdown : Bool) : State C D :=
  if s.shm.hasResponse = false ∧ shutdown = false then s.unlock
  else if shutdown ∨ s.shm.response.requestId ≠ client.nextReqId ∨
      s.shm.response.dataSize.toNat ≠ call.respSize then
    s.unlock.putClient c { client with phase := .idle }
  else
    let taken : State C D := { s with
      shm := { s.shm with hasResponse := false }
      returned := s.returned ++ [⟨c, call, ticket, s.shm.response.data.take call.respSize⟩] }
    taken.unlock.putClient c { client with phase := .idle }

def pickUp (s : State C D) (d : D) : State C D :=
  if s.shm.hasRequest ∧ s.shm.hasResponse = false then
    -- `has_request` stays raised while the callback runs
    s.unlock.putDriver d (.serving s.shm.request)
  else s.unlock.putDriver d .idle

def leaveLoop (s : State C D) (d : D) (running shutdown : Bool) : State C D :=
  if running = false ∨ shutdown then s.unlock.putDriver d .idle else pickUp s d

/-- `serviceLoop` from the test of its wait loop on, with the mutex held. -/
def waitLoop (s : State C D) (d : D) (running shutdown : Bool) : State C D :=
  if s.shm.hasRequest = false ∧ running ∧ shutdown = false then s.unlock.putDriver d .waiting
  else leaveLoop s d running shutdown

def slotAfterDeath (holding : Bool) (shm leftover : ServiceShm) : Option ServiceShm := do
  let mutex ← dieAt holding shm.mutex
  some { (if holding then leftover else shm) with mutex := mutex }

def next (s : State C D) : Event C D → Option (State C D)
  | .connect c pid => do
    guard (s.clients c).isNone
    some (s.putClient c ⟨pid, 0, .idle⟩)
  | .call c call shutdown interrupted => do
    let client ← s.clients c
    guard (client.phase = .idle)
    let shm ← s.shm.lockRobust
    some (postWhenFree { s with shm := shm } c client call shutdown interrupted)
  | .freeWake c cause shutdown interrupted => do
    let client ← s.clients c
    let (mutex, ret) ← s.shm.mutex.reacquire cause
    let shm : ServiceShm := { s.shm with mutex := mutex }
    match client.phase with
    | .waitFree call =>
      if ret ≠ .ok then
        some (State.putClient { s with shm := (shm.giveUp ret).unlock } c
          { client with phase := .idle })
      else some (postWhenFree { s with shm := shm } c client call shutdown interrupted)
    | _ => none
  | .responseWake c cause shutdown => do
    let client ← s.clients c
    let (mutex, ret) ← s.shm.mutex.reacquire cause
    let shm : ServiceShm := { s.shm with mutex := mutex }
    match client.phase with
    | .waitResponse call ticket =>
      if ret ≠ .ok then
        some (State.putClient { s with shm := (shm.giveUp ret).unlock } c
          { client with phase := .idle })
      else some (takeResponse { s with shm := shm } c client call ticket shutdown)
    | _ => none
  | .serviceLoop d running shutdown => do
    guard (s.drivers d = .idle)
    let shm ← s.shm.lockRobust
    some (waitLoop { s with shm := shm } d running shutdown)
  | .loopWake d cause running shutdown => do
    guard (s.drivers d = .waiting)
    let (mutex, ret) ← s.shm.mutex.reacquire cause
    let shm : ServiceShm := { s.shm with mutex := mutex }
    if ret = .ownerDead then
      -- the one place where a recovery also resets the data
      some (waitLoop { s with shm := { shm with
        mutex := shm.mutex.consistent
        hasRequest := false
        hasResponse := false } } d running shutdown)
    else if ret ≠ .ok ∧ ret ≠ .timedOut then
      -- an error breaks out of the wait loop and goes on with whatever the flags say
      some (leaveLoop { s with shm := shm } d running shutdown)
    else some (waitLoop { s with shm := shm } d running shutdown)
  | .spinOnce d => do
    guard (s.drivers d = .idle)
    let shm ← s.shm.lockRobust
    some (pickUp { s with shm := shm } d)
  | .complete d outcome => do
    match s.drivers d with
    | .serving request =>
      let shm ← s.shm.lockRobust
      let completed : State C D := { s with
        shm := shm.complete request outcome
        served := s.served ++ [⟨request.ticket, request.data, request.dataSize, outcome⟩] }
      some (completed.unlock.putDriver d .idle)
    | _ => none
  | .clientDies c holding leftover => do
    guard (s.clients c).isSome
    let shm ← slotAfterDeath holding s.shm leftover
    some { s with shm := shm, clients := Function.update s.clients c none }
  | .driverDies d holding leftover => do
    let shm ← slotAfterDeath holding s.shm leftover
    some (State.putDriver { s with shm := shm } d .idle)

def machine (C D : Type) [DecidableEq C] [DecidableEq D] : Machine (State C D) (Event C D) where
  initial := fun s => s = ⟨.init, fun _ => none, fun _ => .idle, [], [], []⟩
  next := next

end

def Call.ofByte (byte : UInt8) : Call := ⟨⟨[byte], Nat.le_of_ble_eq_true rfl⟩, 1, by decide⟩

def Outcome.ofByte (byte : UInt8) : Outcome := ⟨true, byte :: List.replicate 255 0, 1⟩

end ComIpc.Service
