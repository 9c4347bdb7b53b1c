import ComIpc.Action.Step

/-! Cancelling a goal.

The callback that marks a goal as preempted belongs to the cancel service, whose
thread nobody starts: `start` runs `process_thread_` alone. The invariant excludes
every schedule that would take up a posted request.
-/

set_option autoImplicit false

namespace ComIpc.Action

open Semantics

section
variable {C : Type}

def Executing (s : State C) (goalId : Int32) : Prop :=
  Thread.process ∈ s.server.threads ∧ ∃ x, s.server.phase = .executing x ∧
    ∃ execution ∈ s.server.executions[x]?, execution.goalId = goalId

def Posted (s : State C) (c : C) (goalId : Int32) (ticket : Nat) : Prop :=
  ∃ client ∈ s.cancel.clients c, client.phase = .waitResponse (cancelCall goalId) ticket

/-- The goal is marked and that `cancelGoal` returned true. -/
def Cancelled (s : State C) (c : C) (goalId : Int32) (ticket : Nat) : Prop :=
  s.server.isPreempted goalId = true ∧
    ∃ r ∈ s.cancel.returned, r.client = c ∧ r.ticket = ticket ∧ int32Of r.response ≠ 0

def Patient (c : C) : Event C → Prop
  | .cancelClient (.responseWake waiter cause _) => waiter = c → cause ≠ .timedOut
  | _ => True

variable [DecidableEq C]

/-- Some finite continuation without a timeout of the client cancels the goal. -/
def Cancellable (s : State C) (c : C) (goalId : Int32) (ticket : Nat) : Prop :=
  ∃ schedule t, (∀ e ∈ schedule, Patient c e) ∧ (machine C).run s schedule = some t ∧
    Cancelled t c goalId ticket

/-- The thread of the cancel service does not run and no goal is marked. -/
structure Unserved (server : Server) : Prop where
  thread : Thread.cancelService ∉ server.threads
  unmarked : server.preemptedGoals = ∅

theorem Unserved.same {before after : Server} (unserved : Unserved before)
    (threads : after.threads = before.threads)
    (marks : after.preemptedGoals = before.preemptedGoals) : Unserved after :=
  ⟨threads ▸ unserved.thread, marks.trans unserved.unmarked⟩

theorem Unserved.start {server : Server} (unserved : Unserved server) : Unserved server.start := by
  refine ⟨?_, unserved.unmarked⟩
  simpa [Server.start] using unserved.thread

theorem Unserved.pop {server : Server} (unserved : Unserved server) : Unserved server.pop := by
  unfold Server.pop
  split
  · exact unserved.same rfl rfl
  · split <;> exact unserved.same rfl rfl

theorem Unserved.accept {server after : Server} {residue message : Bytes} {header : MessageHeader}
    {source : Option Nat} (unserved : Unserved server)
    (accepted : server.accept residue header message source = some after) : Unserved after := by
  unfold Server.accept at accepted
  split at accepted
  · obtain ⟨_, _, accepted⟩ := Option.bind_eq_some_iff.mp accepted
    exact Option.some.inj accepted ▸ unserved.same rfl rfl
  · exact Option.some.inj accepted ▸ unserved.same rfl rfl

theorem next_unserved {s t : State C} {e : Event C} (unserved : Unserved s.server)
    (taken : next s e = some t) : Unserved t.server := by
  cases next_step taken with
  | bus | published | connected | refused | sent | sendReturned | unheard | stored | got
  | cancelPosted | cancelWoken => exact unserved
  | constructed | shutdown | stopped | polled | woken | missed | callbackReturned =>
    exact unserved.same rfl rfl
  | started => exact unserved.start
  | popped => exact unserved.pop
  | accepted _ _ _ _ accepted => exact unserved.accept accepted
  | cancelDriven started | cancelServed _ _ started => exact absurd started unserved.thread

theorem reachable_unserved {s : State C} (reach : (machine C).Reachable s) :
    Unserved s.server := by
  refine reach.invariant (fun s => Unserved s.server) ?_ fun s e t unserved _ taken =>
    next_unserved unserved taken
  rintro s rfl
  exact ⟨by simp [State.init, Server.absent], rfl⟩

theorem not_cancellable {s : State C} (reach : (machine C).Reachable s) (c : C) (goalId : Int32)
    (ticket : Nat) : ¬ Cancellable s c goalId ticket := by
  -- the end of the schedule is reachable too, so the invariant holds there
  rintro ⟨schedule, t, _, path, marked, _⟩
  have unserved := reachable_unserved (Machine.Reachable.continues reach ⟨schedule, path⟩)
  simp [Server.isPreempted, unserved.unmarked] at marked

/-- Whatever goal is executing and whoever has posted its cancellation, no continuation of
any reachable state cancels it. -/
theorem never_cancellable {s : State C} (reach : (machine C).Reachable s) {c : C}
    {goalId : Int32} {ticket : Nat} :
    Executing s goalId → Posted s c goalId ticket → ¬ Cancellable s c goalId ticket :=
  fun _ _ => not_cancellable reach c goalId ticket

end

def untilPosted : List (Event Nat) :=
  [.construct, .start, .connect 0 100, .sendGoal 0 0 5 (oneByte 7) false, .copyIn 0,
    .enqueue 0 5, .sendReturns 0, .poll false, .finish (List.replicate 272 0), .pop,
    .cancelGoal 0 0 false false]

theorem cancel_posted : ∃ s : State Nat, (machine Nat).Reachable s ∧ Executing s 0 ∧
    Posted s 0 0 0 := by
  obtain ⟨s, reach, posted⟩ := Machine.reachable_of_check (machine Nat) (fun _ _ => True) rfl
    untilPosted (fun s => decide (s.server.threads = [.process] ∧ s.server.phase = .executing 0 ∧
      s.server.executions[0]?.map Execution.goalId = some 0 ∧
      (s.cancel.clients 0).map Service.Client.phase = some (.waitResponse (cancelCall 0) 0)))
    (by decide +kernel)
  obtain ⟨threads, phase, executions, waiting⟩ := of_decide_eq_true posted
  obtain ⟨execution, known, goalId⟩ := Option.map_eq_some_iff.mp executions
  obtain ⟨client, connected, waits⟩ := Option.map_eq_some_iff.mp waiting
  exact ⟨s, reach, ⟨by simp [threads], 0, phase, execution, known, goalId⟩,
    ⟨client, connected, waits⟩⟩

theorem never_cancellable_posted : ∃ s : State Nat, Executing s 0 ∧ Posted s 0 0 0 ∧
    ¬ Cancellable s 0 0 0 := by
  obtain ⟨s, reach, executing, posted⟩ := cancel_posted
  exact ⟨s, executing, posted, never_cancellable reach executing posted⟩

theorem cancellation_unreachable :
    ¬ ∀ s : State Nat, (machine Nat).Reachable s → ∀ c goalId ticket,
      Executing s goalId → Posted s c goalId ticket → Cancellable s c goalId ticket := by
  intro claim
  obtain ⟨s, reach, executing, posted⟩ := cancel_posted
  exact not_cancellable reach 0 0 0 (claim s reach 0 0 0 executing posted)

/-- Only the thread is missing: once it runs, the posted cancellation goes through. -/
example :
    let s := ((machine Nat).run .init untilPosted).getD .init
    let started := { s with server.threads := [.process, .cancelService] }
    ((machine Nat).run started [.cancelDriver (.serviceLoop () true false), .cancelCallback [],
      .cancelDriver (.complete () ⟨true, int32Bytes 1 ++ int32Bytes 1, 8⟩),
      .cancelClient (.responseWake 0 .ok false)]).map (fun s =>
        (s.server.isPreempted 0, s.cancel.returned.map fun r => int32Of r.response)) =
      some (true, [1]) := by decide +kernel

/-! ### The reply

`cancelCallback` writes both fields of the response, and the callback of the service writes
the first one again with the result of `cancelCallback`, which is always true.
-/

structure CancelResponse where
  success : Int32
  cancelledGoals : Int32
  deriving DecidableEq, Repr

def CancelResponse.ofImage (bytes : Bytes) : CancelResponse :=
  ⟨int32Of bytes, int32Of (bytes.drop 4)⟩

def Server.cancelReply (server : Server) : Option CancelResponse :=
  server.cancelOutcome.bind fun outcome =>
    if outcome.success = true ∧ outcome.respSize = 8 then some (.ofImage outcome.data) else none

def cancelGoalReturns (response : CancelResponse) : Bool := decide (response.success ≠ 0)

/-- The reply says of every goal whether it is active, and marks it if it is; a caller is told
that a goal was cancelled only if it is marked. -/
structure RepliesRight (server after : Server) (goalId : Int32) : Prop where
  active : goalId ∈ server.activeGoals →
    after.cancelReply = some ⟨1, 1⟩ ∧ goalId ∈ after.preemptedGoals
  unknown : goalId ∉ server.activeGoals →
    after.cancelReply = some ⟨0, 0⟩ ∧ after = { server with cancelOutcome := after.cancelOutcome }
  returns : ∀ response, after.cancelReply = some response → cancelGoalReturns response = true →
    goalId ∈ after.preemptedGoals

theorem serveCancel_reply (server : Server) (residue : Bytes) {request : Service.Request}
    (size : request.dataSize.toNat = 4) : (server.serveCancel residue request).cancelReply =
      some ⟨1, if int32Of request.data ∈ server.activeGoals then 1 else 0⟩ := by
  have image (n : Int32) : CancelResponse.ofImage
      (memcpy residue (int32Bytes 1 ++ int32Bytes n) 8) = ⟨1, n⟩ := by
    rw [memcpy, List.take_of_length_le (by simp), List.append_assoc, CancelResponse.ofImage,
      int32Of_image, List.drop_append_of_le_length (by simp), List.drop_of_length_le (by simp),
      List.nil_append, int32Of_image]
  by_cases active : int32Of request.data ∈ server.activeGoals
  · simp [Server.serveCancel, Server.cancelCallback, Server.cancelReply, size, active, image]
  · simp [Server.serveCancel, Server.cancelCallback, Server.cancelReply, size, active, image]

theorem serveCancel_preempted (server : Server) (residue : Bytes) {request : Service.Request}
    (size : request.dataSize.toNat = 4) (active : int32Of request.data ∈ server.activeGoals) :
    int32Of request.data ∈ (server.serveCancel residue request).preemptedGoals := by
  unfold Server.serveCancel Server.cancelCallback
  rw [if_neg (not_not_intro size), if_pos active]
  exact Finset.mem_insert_self _ _

/-- For every state of the server and every goal, the reply is right if and only if the goal is
active. -/
theorem cancel_reply_iff (server : Server) (residue : Bytes) {request : Service.Request}
    (size : request.dataSize.toNat = 4) :
    RepliesRight server (server.serveCancel residue request) (int32Of request.data) ↔
      int32Of request.data ∈ server.activeGoals := by
  have reply := serveCancel_reply server residue size
  constructor
  · intro right
    by_contra unknown
    rw [(right.unknown unknown).1, if_neg unknown] at reply
    exact absurd reply (by decide)
  · intro active
    rw [if_pos active] at reply
    have marked := serveCancel_preempted server residue size active
    exact ⟨fun _ => ⟨reply, marked⟩, fun unknown => absurd active unknown, fun _ _ _ => marked⟩

def cancelRequest (goalId : Int32) : Service.Request := ⟨100, 1, 4, int32Bytes goalId, 0⟩

theorem cancel_reply_iff_unknown :
    ¬ RepliesRight .absent (Server.absent.serveCancel [] (cancelRequest 7)) 7 := by
  intro right
  have size : (cancelRequest 7).dataSize.toNat = 4 := rfl
  exact absurd ((cancel_reply_iff .absent [] size).mp right) (by decide)

/-- A goal that was never sent is reported as cancelled by a server that waits for its first
goal. -/
theorem unknown_goal_cancelled :
    ¬ ∀ s : State Nat, (machine Nat).Reachable s → ∀ (residue : Bytes) (request : Service.Request),
      request.dataSize.toNat = 4 → RepliesRight s.server (s.server.serveCancel residue request)
        (int32Of request.data) := by
  intro claim
  obtain ⟨s, reach, fresh⟩ := Machine.reachable_of_check (machine Nat) (fun _ _ => True) rfl
    [.construct, .start] (fun s => decide (s.server.activeGoals = ∅)) (by decide)
  have right := claim s reach [] (cancelRequest 7) rfl
  have reply := (right.unknown (by rw [of_decide_eq_true fresh]; decide)).1
  rw [serveCancel_reply s.server [] rfl] at reply
  have told : (1 : Int32) = 0 := congrArg CancelResponse.success (Option.some.inj reply)
  exact absurd told (by decide)

end ComIpc.Action
