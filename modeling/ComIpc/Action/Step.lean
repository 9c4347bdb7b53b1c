import ComIpc.Action.Machine

/-! What one step of the action machine does, with every guard it passed. -/

set_option autoImplicit false

namespace ComIpc.Action

open Semantics

section
variable {C : Type}

inductive OnlyBus : Event C → BusEvent C → Prop where
  | listen (c : C) (outlet : Outlet) (stop : Bool) : OnlyBus (.listen c outlet stop)
      (.receive outlet.channel (.client c outlet) loopReceive stop)
  | listenWake (c : C) (outlet : Outlet) (cause : Ret) (stop : Bool) :
      OnlyBus (.listenWake c outlet cause stop)
        (.wake outlet.channel (.client c outlet) cause stop)
  | copyIn (k : Nat) : OnlyBus (.copyIn k) (.copyIn k)
  | enqueue (k : Nat) (now : Int64) : OnlyBus (.enqueue k now) (.enqueue k now)
  | traffic {e : BusEvent C} : Foreign e = true → OnlyBus (.traffic e) e

variable [DecidableEq C]

inductive Step (s : State C) : Event C → State C → Prop where
  | bus {e : Event C} {e' : BusEvent C} {bus : ActionBus C} : OnlyBus e e' →
      Bus.next s.bus e' = some bus → Step s e { s with bus := bus }
  | constructed {attached bus : ActionBus C} : s.server.phase = .absent →
      Bus.next s.bus (.attach .goal) = some attached →
      Bus.next attached (.construct .goal .server) = some bus →
      Step s .construct { s with bus := bus, server := { s.server with phase := .constructed } }
  | started : s.server.phase = .constructed →
      Step s .start { s with server := s.server.start }
  | shutdown : Step s .shutdown { s with server := { s.server with running := false } }
  | stopped (stop : Bool) : s.server.phase = .polling →
      Step s (.poll stop) { s with server := { s.server with phase := .stopped } }
  | polled (stop : Bool) {bus : ActionBus C} : s.server.phase = .polling →
      Bus.next s.bus (.receive .goal .server loopReceive stop) = some bus →
      Step s (.poll stop) { s with bus := bus, server := { s.server with phase := phaseAfter bus } }
  | woken (cause : Ret) (stop : Bool) {bus : ActionBus C} : s.server.phase = .receiving →
      Bus.next s.bus (.wake .goal .server cause stop) = some bus →
      Step s (.wake cause stop)
        { s with bus := bus, server := { s.server with phase := phaseAfter bus } }
  | missed (residue : Bytes) {bus : ActionBus C} : s.server.phase = .receiving →
      Bus.next s.bus (.finish .goal .server) = some bus → s.copied .goal .server = none →
      Step s (.finish residue) { s with bus := bus, server := { s.server with phase := .popping } }
  | accepted (residue : Bytes) {bus : ActionBus C} {r : Bus.Receipt Channel Nat (Reader C)}
      {server : Server} : s.server.phase = .receiving →
      Bus.next s.bus (.finish .goal .server) = some bus → s.copied .goal .server = some r →
      s.server.accept residue r.header r.payload r.source = some server →
      Step s (.finish residue) { s with bus := bus, server := server }
  | popped : s.server.phase = .popping → Step s .pop { s with server := s.server.pop }
  | callbackReturned {x : Nat} : s.server.phase = .executing x →
      Step s .callbackReturns { s with server := { s.server with phase := .polling } }
  | published (k : Nat) (outlet : Outlet) (execution : Nat) (status : Int32) (timestamp : Int64)
      (report : Payload) {goal : Execution} {bus : ActionBus C} :
      s.server.executions[execution]? = some goal →
      Bus.next s.bus (.allocate k outlet.channel .custom
        (ReportHeader.ofReport goal.goalId status timestamp report).image) = some bus →
      Step s (.publish k outlet execution status timestamp report) { s with
        bus := bus
        purposes := Function.update s.purposes k
          (some (.report outlet execution goal.goalId status timestamp report)) }
  | connected (c : C) (pid : Int32) {bus₁ bus₂ bus₃ bus : ActionBus C}
      {cancel : Service.State C Unit} : s.clients c = none →
      Bus.next s.bus (.attach .feedback) = some bus₁ →
      Bus.next bus₁ (.construct .feedback (.client c .feedback)) = some bus₂ →
      Bus.next bus₂ (.attach .result) = some bus₃ →
      Bus.next bus₃ (.construct .result (.client c .result)) = some bus →
      Step s (.connect c pid) (State.putClient { s with bus := bus, cancel := cancel } c .init)
  | refused (c : C) (k : Nat) (timestamp : Int64) (goal : Payload) {client : Client} :
      s.clients c = some client → client.sending = none → client.nextGoalId ≠ Int32.maxValue →
      Step s (.sendGoal c k timestamp goal true)
        (s.putClient c { client with nextGoalId := client.nextGoalId + 1 })
  | sent (c : C) (k : Nat) (timestamp : Int64) (goal : Payload) {client : Client}
      {bus : ActionBus C} :
      s.clients c = some client → client.sending = none → client.nextGoalId ≠ Int32.maxValue →
      Bus.next s.bus (.allocate k .goal .custom
        (GoalHeader.ofGoal client.nextGoalId timestamp goal).image) = some bus →
      Step s (.sendGoal c k timestamp goal false) (State.putClient { s with
        bus := bus
        purposes := Function.update s.purposes k
          (some (.goal c client.nextGoalId timestamp goal)) } c
        { client with nextGoalId := client.nextGoalId + 1, sending := some k })
  | sendReturned (c : C) {client : Client} {k : Nat} {call : Bus.PublishCall Channel}
      {seq : UInt32} {sender : C} {goalId : Int32} {timestamp : Int64} {goal : Payload} :
      s.clients c = some client → client.sending = some k → s.bus.calls k = some call →
      call.stage = .enqueued seq → s.purposes k = some (.goal sender goalId timestamp goal) →
      Step s (.sendReturns c) (s.putClient c
        { client with sending := none, returned := client.returned ++ [goalId] })
  | unheard (c : C) (outlet : Outlet) (residue : Bytes) {bus : ActionBus C} :
      Bus.next s.bus (.finish outlet.channel (.client c outlet)) = some bus →
      s.copied outlet.channel (.client c outlet) = none →
      Step s (.listenFinish c outlet residue) { s with bus := bus }
  | stored (c : C) (outlet : Outlet) (residue : Bytes) {client : Client} {bus : ActionBus C}
      {r : Bus.Receipt Channel Nat (Reader C)} : s.clients c = some client →
      Bus.next s.bus (.finish outlet.channel (.client c outlet)) = some bus →
      s.copied outlet.channel (.client c outlet) = some r →
      Step s (.listenFinish c outlet residue) (State.putClient { s with bus := bus } c
        (client.store outlet residue r.header r.payload r.source))
  | got (c : C) (outlet : Outlet) (goalId : Int32) (size : Nat) {client client' : Client} :
      s.clients c = some client → client.get outlet goalId size = some client' →
      Step s (.get c outlet goalId size) (s.putClient c client')
  | cancelPosted (c : C) (goalId : Int32) (shutdown interrupted : Bool)
      {cancel : Service.State C Unit} :
      Service.next s.cancel (.call c (cancelCall goalId) shutdown interrupted) = some cancel →
      Step s (.cancelGoal c goalId shutdown interrupted) { s with cancel := cancel }
  | cancelWoken {e : Service.Event C Unit} {cancel : Service.State C Unit} :
      OfClient e = true → Service.next s.cancel e = some cancel →
      Step s (.cancelClient e) { s with cancel := cancel }
  | cancelDriven {e : Service.Event C Unit} {cancel : Service.State C Unit} :
      Thread.cancelService ∈ s.server.threads → Service.next s.cancel e = some cancel →
      Step s (.cancelDriver e)
        { s with cancel := cancel, server := { s.server with cancelOutcome := none } }
  | cancelServed (residue : Bytes) (request : Service.Request) :
      Thread.cancelService ∈ s.server.threads →
      Step s (.cancelCallback residue)
        { s with server := s.server.serveCancel residue request }

theorem onBus_eq {s s' : State C} {e : BusEvent C} (taken : s.onBus e = some s') :
    ∃ bus, Bus.next s.bus e = some bus ∧ s' = { s with bus := bus } := by
  obtain ⟨bus, stepped, rfl⟩ := Option.map_eq_some_iff.mp taken
  exact ⟨bus, stepped, rfl⟩

theorem allocate_eq {s s' : State C} {k : Nat} {purpose : Purpose C}
    (taken : s.allocate k purpose = some s') : ∃ bus,
      Bus.next s.bus (.allocate k purpose.channel .custom purpose.message) = some bus ∧
      s' = { s with bus := bus, purposes := Function.update s.purposes k (some purpose) } := by
  simp only [State.allocate, Option.bind_eq_bind, Option.bind_eq_some_iff,
    Option.some.injEq] at taken
  obtain ⟨_, onBus, rfl⟩ := taken
  obtain ⟨bus, stepped, rfl⟩ := onBus_eq onBus
  exact ⟨bus, stepped, rfl⟩

theorem next_step {s t : State C} {e : Event C} (taken : next s e = some t) : Step s e t := by
  cases e with
  | construct =>
    simp only [next, Option.bind_eq_bind, Option.bind_eq_some_iff, guard_passed,
      Option.some.injEq] at taken
    obtain ⟨_, absent, _, attachOnBus, _, constructOnBus, rfl⟩ := taken
    obtain ⟨attached, attach, rfl⟩ := onBus_eq attachOnBus
    obtain ⟨bus, construct, rfl⟩ := onBus_eq constructOnBus
    exact .constructed absent attach construct
  | start =>
    simp only [next, Option.bind_eq_bind, Option.bind_eq_some_iff, guard_passed,
      Option.some.injEq] at taken
    obtain ⟨_, constructed, rfl⟩ := taken
    exact .started constructed
  | shutdown => exact Option.some.inj taken ▸ .shutdown
  | poll stop =>
    simp only [next, Option.bind_eq_bind, Option.bind_eq_some_iff, guard_passed] at taken
    obtain ⟨_, polling, taken⟩ := taken
    split at taken
    · obtain ⟨_, receiveOnBus, taken⟩ := Option.bind_eq_some_iff.mp taken
      obtain ⟨bus, receive, rfl⟩ := onBus_eq receiveOnBus
      exact Option.some.inj taken ▸ .polled stop polling receive
    · exact Option.some.inj taken ▸ .stopped stop polling
  | wake cause stop =>
    simp only [next, Option.bind_eq_bind, Option.bind_eq_some_iff, guard_passed,
      Option.some.injEq] at taken
    obtain ⟨_, receiving, _, wakeOnBus, rfl⟩ := taken
    obtain ⟨bus, wake, rfl⟩ := onBus_eq wakeOnBus
    exact .woken cause stop receiving wake
  | finish residue =>
    simp only [next, Option.bind_eq_bind, Option.bind_eq_some_iff, guard_passed] at taken
    obtain ⟨_, receiving, _, finishOnBus, taken⟩ := taken
    obtain ⟨bus, finish, rfl⟩ := onBus_eq finishOnBus
    split at taken
    · rename_i nothing
      exact Option.some.inj taken ▸ .missed residue receiving finish nothing
    · rename_i r copied
      obtain ⟨server, accepted, taken⟩ := Option.bind_eq_some_iff.mp taken
      exact Option.some.inj taken ▸ .accepted residue receiving finish copied accepted
  | pop =>
    simp only [next, Option.bind_eq_bind, Option.bind_eq_some_iff, guard_passed,
      Option.some.injEq] at taken
    obtain ⟨_, popping, rfl⟩ := taken
    exact .popped popping
  | callbackReturns =>
    simp only [next] at taken
    split at taken
    · rename_i executing
      exact Option.some.inj taken ▸ .callbackReturned executing
    · contradiction
  | publish k outlet execution status timestamp report =>
    simp only [next, Option.bind_eq_bind, Option.bind_eq_some_iff] at taken
    obtain ⟨goal, known, allocateOnBus⟩ := taken
    obtain ⟨bus, allocate, rfl⟩ := allocate_eq allocateOnBus
    exact .published k outlet execution status timestamp report known allocate
  | connect c pid =>
    simp only [next, Option.bind_eq_bind, Option.bind_eq_some_iff, guard_passed,
      Option.some.injEq] at taken
    obtain ⟨_, absent, _, firstOnBus, _, secondOnBus, _, thirdOnBus, _, fourthOnBus, cancel, _,
      rfl⟩ := taken
    obtain ⟨bus₁, first, rfl⟩ := onBus_eq firstOnBus
    obtain ⟨bus₂, second, rfl⟩ := onBus_eq secondOnBus
    obtain ⟨bus₃, third, rfl⟩ := onBus_eq thirdOnBus
    obtain ⟨bus, fourth, rfl⟩ := onBus_eq fourthOnBus
    exact .connected c pid (by simpa using absent) first second third fourth
  | sendGoal c k timestamp goal stop =>
    simp only [next, Option.bind_eq_bind, Option.bind_eq_some_iff, guard_passed] at taken
    obtain ⟨client, known, _, free, _, counted, taken⟩ := taken
    cases stop with
    | true =>
      simp only [if_true, Option.some.injEq] at taken
      exact taken ▸ .refused c k timestamp goal known free counted
    | false =>
      simp only [Bool.false_eq_true, if_false, Option.bind_eq_some_iff,
        Option.some.injEq] at taken
      obtain ⟨_, allocateOnBus, rfl⟩ := taken
      obtain ⟨bus, allocate, rfl⟩ := allocate_eq allocateOnBus
      exact .sent c k timestamp goal known free counted allocate
  | sendReturns c =>
    simp only [next, Option.bind_eq_bind, Option.bind_eq_some_iff] at taken
    obtain ⟨client, known, k, sending, call, found, purpose, meant, taken⟩ := taken
    split at taken
    · rename_i stage
      exact Option.some.inj taken ▸ .sendReturned c known sending found stage meant
    · contradiction
  | listen c outlet stop =>
    simp only [next, Option.bind_eq_bind, Option.bind_eq_some_iff] at taken
    obtain ⟨_, _, onBus⟩ := taken
    obtain ⟨bus, stepped, rfl⟩ := onBus_eq onBus
    exact .bus (.listen c outlet stop) stepped
  | listenWake c outlet cause stop =>
    simp only [next, Option.bind_eq_bind, Option.bind_eq_some_iff] at taken
    obtain ⟨_, _, onBus⟩ := taken
    obtain ⟨bus, stepped, rfl⟩ := onBus_eq onBus
    exact .bus (.listenWake c outlet cause stop) stepped
  | listenFinish c outlet residue =>
    simp only [next, Option.bind_eq_bind, Option.bind_eq_some_iff] at taken
    obtain ⟨client, known, _, finishOnBus, taken⟩ := taken
    obtain ⟨bus, finish, rfl⟩ := onBus_eq finishOnBus
    split at taken
    · rename_i nothing
      exact Option.some.inj taken ▸ .unheard c outlet residue finish nothing
    · rename_i r copied
      exact Option.some.inj taken ▸ .stored c outlet residue known finish copied
  | get c outlet goalId size =>
    simp only [next, Option.bind_eq_bind, Option.bind_eq_some_iff, Option.some.injEq] at taken
    obtain ⟨_, _, client, known, client', got, rfl⟩ := taken
    exact .got c outlet goalId size known got
  | copyIn k =>
    obtain ⟨bus, stepped, rfl⟩ := onBus_eq taken
    exact .bus (.copyIn k) stepped
  | enqueue k now =>
    obtain ⟨bus, stepped, rfl⟩ := onBus_eq taken
    exact .bus (.enqueue k now) stepped
  | traffic e =>
    simp only [next, Option.bind_eq_bind, Option.bind_eq_some_iff, guard_passed] at taken
    obtain ⟨_, foreign, onBus⟩ := taken
    obtain ⟨bus, stepped, rfl⟩ := onBus_eq onBus
    exact .bus (.traffic foreign) stepped
  | cancelGoal c goalId shutdown interrupted =>
    simp only [next, Option.bind_eq_bind, Option.bind_eq_some_iff, Option.some.injEq] at taken
    obtain ⟨cancel, call, rfl⟩ := taken
    exact .cancelPosted c goalId shutdown interrupted call
  | cancelClient e =>
    simp only [next, Option.bind_eq_bind, Option.bind_eq_some_iff, guard_passed,
      Option.some.injEq] at taken
    obtain ⟨_, ofClient, cancel, woken, rfl⟩ := taken
    exact .cancelWoken ofClient woken
  | cancelDriver e =>
    simp only [next, Option.bind_eq_bind, Option.bind_eq_some_iff, guard_passed,
      Option.some.injEq] at taken
    obtain ⟨_, ⟨started, _⟩, cancel, driven, rfl⟩ := taken
    exact .cancelDriven started driven
  | cancelCallback residue =>
    simp only [next, Option.bind_eq_bind, Option.bind_eq_some_iff, guard_passed] at taken
    obtain ⟨_, ⟨started, _⟩, taken⟩ := taken
    split at taken
    · exact Option.some.inj taken ▸ .cancelServed residue _ started
    · contradiction

end

end ComIpc.Action
