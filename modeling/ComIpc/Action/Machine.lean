import ComIpc.Action.Client
import ComIpc.Action.Server
import ComIpc.Bus.Payload

/-! One action: a server, any number of clients, the bus that carries goals, feedback and
results, and the cancel service.

`purposes` is a ghost: what each `publishRaw` call was made for.
-/

set_option autoImplicit false

namespace ComIpc.Action

open Semantics

inductive Channel where
  | goal
  | feedback
  | result
  | other (topic : Nat)
  deriving DecidableEq, Repr

def Outlet.channel : Outlet → Channel
  | feedback => .feedback
  | result => .result

inductive Reader (C : Type) where
  | server
  | client (c : C) (outlet : Outlet)
  | other (subscriber : Nat)
  deriving DecidableEq, Repr

inductive Purpose (C : Type) where
  | goal (c : C) (goalId : Int32) (timestamp : Int64) (goal : Payload)
  | report (outlet : Outlet) (execution : Nat) (goalId status : Int32) (timestamp : Int64)
      (report : Payload)
  deriving DecidableEq, Repr

def Purpose.channel {C : Type} : Purpose C → Channel
  | .goal _ _ _ _ => .goal
  | .report outlet _ _ _ _ _ => outlet.channel

def Purpose.message {C : Type} : Purpose C → Bytes
  | .goal _ goalId timestamp payload => (GoalHeader.ofGoal goalId timestamp payload).image
  | .report _ _ goalId status timestamp payload =>
    (ReportHeader.ofReport goalId status timestamp payload).image

abbrev ActionBus (C : Type) := Bus.State Channel Nat (Reader C)

abbrev BusEvent (C : Type) := Bus.Event Channel Nat (Reader C)

structure State (C : Type) where
  bus : ActionBus C
  cancel : Service.State C Unit
  server : Server
  clients : C → Option Client
  purposes : Nat → Option (Purpose C)

inductive Event (C : Type) where
  | construct
  | start
  | shutdown
  /-- The test of the loop and the entry of `receiveRaw`; `stop` is what the receive reads
  from `g_shutdown_requested`. -/
  | poll (stop : Bool)
  | wake (cause : Ret) (stop : Bool)
  | finish (residue : Bytes)
  | pop
  | callbackReturns
  /-- `publishFeedback` or `publishResult` for a goal that was handed to the callback. -/
  | publish (k : Nat) (outlet : Outlet) (execution : Nat) (status : Int32) (timestamp : Int64)
      (report : Payload)
  | connect (c : C) (pid : Int32)
  | sendGoal (c : C) (k : Nat) (timestamp : Int64) (goal : Payload) (stop : Bool)
  | sendReturns (c : C)
  | listen (c : C) (outlet : Outlet) (stop : Bool)
  | listenWake (c : C) (outlet : Outlet) (cause : Ret) (stop : Bool)
  | listenFinish (c : C) (outlet : Outlet) (residue : Bytes)
  | get (c : C) (outlet : Outlet) (goalId : Int32) (size : Nat)
  | copyIn (k : Nat)
  | enqueue (k : Nat) (now : Int64)
  | traffic (e : BusEvent C)
  | cancelGoal (c : C) (goalId : Int32) (shutdown interrupted : Bool)
  | cancelClient (e : Service.Event C Unit)
  | cancelDriver (e : Service.Event C Unit)
  | cancelCallback (residue : Bytes)

abbrev receiveBuffer : Nat := MessageHeader.bytes + maxMsgSize

abbrev loopReceive : Topic.ReceiveCall := .raw receiveBuffer 100

section
variable {C : Type}

/-- What other publishers and subscribers of the system do. -/
def Foreign : BusEvent C → Bool
  | .allocate _ (.other _) _ _ | .loanRaw _ | .writeLoaned _ _
  | .publishLoaned (.other _) _ _ _ _ | .attach (.other _) | .construct (.other _) (.other _)
  | .destroy (.other _) (.other _) | .receive (.other _) (.other _) _ _
  | .wake (.other _) (.other _) _ _ | .finish (.other _) (.other _) => true
  | _ => false

def OfClient : Service.Event C Unit → Bool
  | .freeWake _ _ _ _ | .responseWake _ _ _ => true
  | _ => false

/-- The steps of the thread that `startAsync` of the cancel service would run. -/
def OfDriver (outcome : Option Service.Outcome) : Service.Event C Unit → Bool
  | .serviceLoop _ _ _ | .loopWake _ _ _ _ => true
  | .complete _ result => decide (outcome = some result)
  | _ => false

variable [DecidableEq C]

def State.onBus (s : State C) (e : BusEvent C) : Option (State C) :=
  (Bus.next s.bus e).map fun bus => { s with bus := bus }

def State.putClient (s : State C) (c : C) (client : Client) : State C :=
  { s with clients := Function.update s.clients c (some client) }

/-- The loop goes on after a receive that failed, and stays in one that blocks or holds a
header. -/
def phaseAfter (bus : ActionBus C) : ServerPhase :=
  match (bus.topics .goal).subscribers .server with
  | some sub => if sub.phase = .idle then .popping else .receiving
  | none => .receiving

def State.copied (s : State C) (channel : Channel) (reader : Reader C) :
    Option (Bus.Receipt Channel Nat (Reader C)) := do
  let sub ← (s.bus.topics channel).subscribers reader
  (s.bus.copyOut channel reader sub.phase).head?

def State.allocate (s : State C) (k : Nat) (purpose : Purpose C) : Option (State C) := do
  let s ← s.onBus (.allocate k purpose.channel .custom purpose.message)
  some { s with purposes := Function.update s.purposes k (some purpose) }

def next (s : State C) : Event C → Option (State C)
  | .construct => do
    guard (s.server.phase = .absent)
    let s ← s.onBus (.attach .goal)
    let s ← s.onBus (.construct .goal .server)
    some { s with server := { s.server with phase := .constructed } }
  | .start => do
    guard (s.server.phase = .constructed)
    some { s with server := s.server.start }
  | .shutdown => some { s with server := { s.server with running := false } }
  | .poll stop => do
    guard (s.server.phase = .polling)
    -- `running_` is read once a round: a goal that is already queued is still executed
    if s.server.running then
      let s ← s.onBus (.receive .goal .server loopReceive stop)
      some { s with server := { s.server with phase := phaseAfter s.bus } }
    else some { s with server := { s.server with phase := .stopped } }
  | .wake cause stop => do
    guard (s.server.phase = .receiving)
    let s ← s.onBus (.wake .goal .server cause stop)
    some { s with server := { s.server with phase := phaseAfter s.bus } }
  | .finish residue => do
    guard (s.server.phase = .receiving)
    let s' ← s.onBus (.finish .goal .server)
    match s.copied .goal .server with
    | none => some { s' with server := { s.server with phase := .popping } }
    | some r => do
      let server ← s.server.accept residue r.header r.payload r.source
      some { s' with server := server }
  | .pop => do
    guard (s.server.phase = .popping)
    some { s with server := s.server.pop }
  | .callbackReturns =>
    match s.server.phase with
    | .executing _ => some { s with server := { s.server with phase := .polling } }
    | _ => none
  | .publish k outlet execution status timestamp report => do
    let goal ← s.server.executions[execution]?
    s.allocate k (.report outlet execution goal.goalId status timestamp report)
  | .connect c pid => do
    guard (s.clients c).isNone
    let s ← s.onBus (.attach .feedback)
    let s ← s.onBus (.construct .feedback (.client c .feedback))
    let s ← s.onBus (.attach .result)
    let s ← s.onBus (.construct .result (.client c .result))
    let cancel ← Service.next s.cancel (.connect c pid)
    some ({ s with cancel := cancel }.putClient c .init)
  | .sendGoal c k timestamp goal stop => do
    let client ← s.clients c
    guard (client.sending = none)
    -- the increment of the last id overflows and has no defined result
    guard (client.nextGoalId ≠ Int32.maxValue)
    let counted := { client with nextGoalId := client.nextGoalId + 1 }
    -- a publish that is refused has used the number up
    if stop then some (s.putClient c counted)
    else do
      let s ← s.allocate k (.goal c client.nextGoalId timestamp goal)
      some (s.putClient c { counted with sending := some k })
  | .sendReturns c => do
    let client ← s.clients c
    let k ← client.sending
    let call ← s.bus.calls k
    let purpose ← s.purposes k
    match call.stage, purpose with
    | .enqueued _, .goal _ goalId _ _ =>
      some (s.putClient c
        { client with sending := none, returned := client.returned ++ [goalId] })
    | _, _ => none
  | .listen c outlet stop => do
    guard (s.clients c).isSome
    s.onBus (.receive outlet.channel (.client c outlet) loopReceive stop)
  | .listenWake c outlet cause stop => do
    guard (s.clients c).isSome
    s.onBus (.wake outlet.channel (.client c outlet) cause stop)
  | .listenFinish c outlet residue => do
    let client ← s.clients c
    let s' ← s.onBus (.finish outlet.channel (.client c outlet))
    match s.copied outlet.channel (.client c outlet) with
    | none => some s'
    | some r => some (s'.putClient c (client.store outlet residue r.header r.payload r.source))
  -- the copy of a larger type leaves the array
  | .get c outlet goalId size => do
    guard (size ≤ maxMsgSize)
    let client ← s.clients c
    let client ← client.get outlet goalId size
    some (s.putClient c client)
  | .copyIn k => s.onBus (.copyIn k)
  | .enqueue k now => s.onBus (.enqueue k now)
  | .traffic e => do
    guard (Foreign e)
    s.onBus e
  | .cancelGoal c goalId shutdown interrupted => do
    let cancel ← Service.next s.cancel (.call c (cancelCall goalId) shutdown interrupted)
    some { s with cancel := cancel }
  | .cancelClient e => do
    guard (OfClient e)
    let cancel ← Service.next s.cancel e
    some { s with cancel := cancel }
  -- without its thread the cancel service has neither of these two steps
  | .cancelDriver e => do
    guard (Thread.cancelService ∈ s.server.threads ∧ OfDriver s.server.cancelOutcome e)
    let cancel ← Service.next s.cancel e
    some { s with cancel := cancel, server := { s.server with cancelOutcome := none } }
  | .cancelCallback residue => do
    guard (Thread.cancelService ∈ s.server.threads ∧ s.server.cancelOutcome = none)
    match s.cancel.drivers () with
    | .serving request => some { s with server := s.server.serveCancel residue request }
    | _ => none

end

def State.init {C : Type} : State C :=
  ⟨.init, ⟨.init, fun _ => none, fun _ => .idle, [], [], []⟩, .absent, fun _ => none,
    fun _ => none⟩

def machine (C : Type) [DecidableEq C] : Machine (State C) (Event C) where
  initial := fun s => s = .init
  next := next

end ComIpc.Action
