import ComIpc.Action.Step

/-! The three collections of an action server over any interleaving of its thread with the
callback of the cancel service.

The server is taken alone: a goal arrives, or nothing does, and a cancel is handled at
any moment. `log` is a ghost: the goals that were accepted and the cancels that were
handled, in order. The thread accepts a goal only when its queue is empty, so a mark
that is there before belongs to a goal that was taken out earlier.
-/

set_option autoImplicit false

namespace ComIpc.Action.Goals

open Semantics

inductive Handled where
  | accepted (goalId : Int32)
  | cancel (goalId : Int32)
  deriving DecidableEq, Repr

structure State where
  server : Server
  log : List Handled

inductive Event where
  | construct
  | start
  | shutdown
  | poll
  /-- The receive fails or times out. -/
  | nothing
  | goal (residue : Bytes) (header : MessageHeader) (message : Bytes) (source : Option Nat)
  | pop
  | callbackReturns
  | cancel (residue : Bytes) (request : Service.Request)
  /-- The cancel service has sent its answer. -/
  | answered

def acceptedGoal (residue : Bytes) (header : MessageHeader) (message : Bytes) : Option Int32 :=
  if header.type = .custom ∧ GoalHeader.fixedSize ≤ header.dataSize.toNat then
    (readGoal residue message).map Prod.fst
  else none

def cancelledGoal (request : Service.Request) : Option Int32 :=
  if request.dataSize.toNat = 4 then some (int32Of request.data) else none

def next (s : State) : Event → Option State
  | .construct => do
    guard (s.server.phase = .absent)
    some { s with server := { s.server with phase := .constructed } }
  | .start => do
    guard (s.server.phase = .constructed ∨ s.server.phase = .stopped)
    some { s with server := s.server.start }
  | .shutdown => some { s with server := { s.server with running := false } }
  | .poll => do
    guard (s.server.phase = .polling)
    some { s with server := { s.server with
      phase := if s.server.running then .receiving else .stopped } }
  | .nothing => do
    guard (s.server.phase = .receiving)
    some { s with server := { s.server with phase := .popping } }
  | .goal residue header message source => do
    guard (s.server.phase = .receiving)
    let server ← s.server.accept residue header message source
    some ⟨server, s.log ++ (acceptedGoal residue header message).toList.map .accepted⟩
  | .pop => do
    guard (s.server.phase = .popping)
    some { s with server := s.server.pop }
  | .callbackReturns =>
    match s.server.phase with
    | .executing _ => some { s with server := { s.server with phase := .polling } }
    | _ => none
  | .cancel residue request =>
    some ⟨s.server.serveCancel residue request,
      s.log ++ (cancelledGoal request).toList.map .cancel⟩
  | .answered => some { s with server := { s.server with cancelOutcome := none } }

def machine : Machine State Event where
  initial := fun s => s = ⟨.absent, []⟩
  next := next

/-! ### The law -/

def executing (server : Server) : Option Int32 :=
  match server.phase with
  | .executing x => server.executions[x]?.map Execution.goalId
  | _ => none

def queued (server : Server) : List Int32 := server.goalQueue.entries.map Prod.fst

def pending (server : Server) : List Int32 := queued server ++ (executing server).toList

/-- A cancel of the goal was handled after the last acceptance under its number. -/
def CancelledSince (log : List Handled) (goalId : Int32) : Prop :=
  .cancel goalId ∈ log.reverse.takeWhile fun handled => decide (handled ≠ .accepted goalId)

instance (log : List Handled) (goalId : Int32) : Decidable (CancelledSince log goalId) :=
  inferInstanceAs (Decidable (_ ∈ _))

/-- The mark of a goal that is queued or executing comes from a cancel of this very goal. -/
def Justified (s : State) : Prop :=
  ∀ goalId ∈ pending s.server, s.server.isPreempted goalId = true → CancelledSince s.log goalId

structure Tracked (s : State) : Prop where
  active : ∀ goalId, goalId ∈ s.server.activeGoals ↔ goalId ∈ pending s.server
  preempted : s.server.preemptedGoals ⊆ s.server.activeGoals
  justified : Justified s

/-- No execute callback returns, and no goal of number -1 is taken out of the queue. -/
def NoneLeaves (s : State) : Event → Prop
  | .callbackReturns => False
  | .pop => (queued s.server).head? ≠ some (-1)
  | _ => True

def Unmarked (s : State) : Event → Prop
  | .goal residue header message _ =>
    ∀ goalId ∈ acceptedGoal residue header message, s.server.isPreempted goalId = false
  | _ => True

instance (s : State) (e : Event) : Decidable (NoneLeaves s e) :=
  match e with
  | .pop => inferInstanceAs (Decidable (_ ≠ _))
  | .callbackReturns => isFalse id
  | .construct | .start | .shutdown | .poll | .nothing | .goal _ _ _ _ | .cancel _ _ | .answered =>
    isTrue trivial

/-! ### The log -/

theorem cancelledSince_cancel (log : List Handled) (goalId : Int32) :
    CancelledSince (log ++ [.cancel goalId]) goalId := by
  simp [CancelledSince]

theorem CancelledSince.append {log : List Handled} {goalId : Int32} {handled : Handled}
    (since : CancelledSince log goalId) (other : handled ≠ .accepted goalId) :
    CancelledSince (log ++ [handled]) goalId := by
  simp only [CancelledSince, List.reverse_append, List.reverse_singleton, List.singleton_append,
    List.takeWhile_cons]
  rw [if_pos (decide_eq_true other)]
  exact List.mem_cons_of_mem _ since

/-! ### One step -/

/-- The queue holds at most the goal that was just accepted. -/
structure Drained (server : Server) : Prop where
  short : (queued server).length ≤ 1
  empty : server.phase ≠ .popping → queued server = []
  known : ∀ x, server.phase = .executing x →
    ∃ execution, server.executions[x]? = some execution

theorem executing_none {server : Server} (rests : ∀ x, server.phase ≠ .executing x) :
    executing server = none := by
  unfold executing
  split
  · rename_i x phase
    exact absurd phase (rests x)
  · rfl

theorem pending_of_rests {server : Server} (rests : ∀ x, server.phase ≠ .executing x) :
    pending server = queued server := by
  rw [pending, executing_none rests, Option.toList_none, List.append_nil]

inductive Change (s t : State) : Event → Prop where
  | same {e : Event} : t.server.activeGoals = s.server.activeGoals →
      t.server.preemptedGoals = s.server.preemptedGoals → pending t.server = pending s.server →
      t.log = s.log → NoneLeaves s e → Unmarked s e → Change s t e
  | accepted (residue : Bytes) (header : MessageHeader) (message : Bytes) (source : Option Nat)
      (goalId : Int32) : acceptedGoal residue header message = some goalId →
      pending s.server = [] → pending t.server = [goalId] →
      t.server.activeGoals = insert goalId s.server.activeGoals →
      t.server.preemptedGoals = s.server.preemptedGoals → t.log = s.log ++ [.accepted goalId] →
      Change s t (.goal residue header message source)
  | cancelled (residue : Bytes) (request : Service.Request) (goalId : Int32) :
      pending t.server = pending s.server →
      t.server.activeGoals = s.server.activeGoals →
      t.server.preemptedGoals = (if goalId ∈ s.server.activeGoals then
        insert goalId s.server.preemptedGoals else s.server.preemptedGoals) →
      t.log = s.log ++ [.cancel goalId] → Change s t (.cancel residue request)
  | left (e : Event) (goalId : Int32) : ¬ NoneLeaves s e → pending s.server = [goalId] →
      pending t.server = [] → t.server.activeGoals = s.server.activeGoals →
      t.server.preemptedGoals = s.server.preemptedGoals → t.log = s.log → Unmarked s e →
      Change s t e

theorem pop_change {s : State} (drained : Drained s.server) (popping : s.server.phase = .popping) :
    Change s { s with server := s.server.pop } .pop ∧ Drained s.server.pop := by
  have before : pending s.server = queued s.server := pending_of_rests (by simp [popping])
  cases first : s.server.goalQueue.first? with
  | none =>
    have none := OrderedMap.first?_none first
    have popped : s.server.pop = { s.server with phase := .polling } := by
      simp only [Server.pop, first]
    rw [popped]
    refine ⟨.same rfl rfl ?_ rfl ?_ trivial, drained.short, fun _ => ?_, fun x phase => ?_⟩
    · rw [before]
      exact pending_of_rests (by simp)
    · simp [NoneLeaves, queued, none]
    · simp [queued, none]
    · simp at phase
  | some entry =>
    obtain ⟨⟨goalId, data, source⟩, rest⟩ := entry
    have entries := OrderedMap.first?_entries first
    have queue : queued s.server = goalId :: rest.entries.map Prod.fst := by simp [queued, entries]
    -- the queue was short, so nothing is left behind the first goal
    have empty : rest.entries = [] := by
      have short := drained.short
      rw [queue, List.length_cons, List.length_map] at short
      exact List.length_eq_zero_iff.mp (by omega)
    rw [empty, List.map_nil] at queue
    by_cases reserved : goalId = -1
    · have popped : s.server.pop = { s.server with goalQueue := rest, phase := .polling } := by
        simp only [Server.pop, first, reserved, if_true]
      rw [popped]
      refine ⟨.left .pop goalId ?_ (before.trans queue) ?_ rfl rfl rfl trivial, ?_, fun _ => ?_,
        fun x phase => ?_⟩
      · simp [NoneLeaves, queue, reserved]
      · exact (pending_of_rests (by simp)).trans (by simp [queued, empty])
      · simp [queued, empty]
      · simp [queued, empty]
      · simp at phase
    · have popped : s.server.pop = { s.server with
          goalQueue := rest
          executions := s.server.executions ++ [⟨goalId, data, source⟩]
          phase := .executing s.server.executions.length } := by
        simp only [Server.pop, first, reserved, if_false]
      rw [popped]
      refine ⟨.same rfl rfl ?_ rfl ?_ trivial, ?_, fun _ => ?_, fun x phase => ?_⟩
      · rw [before, queue]
        simp [pending, queued, empty, executing]
      · simp [NoneLeaves, queue, reserved]
      · simp [queued, empty]
      · simp [queued, empty]
      · obtain rfl : s.server.executions.length = x := by simpa using phase
        exact ⟨_, List.getElem?_concat_length⟩

theorem accept_change {s : State} {server : Server} (residue : Bytes) (header : MessageHeader)
    (message : Bytes) (source : Option Nat) (drained : Drained s.server)
    (receiving : s.server.phase = .receiving)
    (accepted : s.server.accept residue header message source = some server) :
    Change s ⟨server, s.log ++ (acceptedGoal residue header message).toList.map .accepted⟩
      (.goal residue header message source) ∧ Drained server := by
  have empty : queued s.server = [] := drained.empty (by simp [receiving])
  have before : pending s.server = [] := (pending_of_rests (by simp [receiving])).trans empty
  unfold Server.accept at accepted
  split at accepted
  · rename_i custom
    obtain ⟨⟨goalId, data⟩, read, same⟩ := Option.bind_eq_some_iff.mp accepted
    obtain rfl := Option.some.inj same
    have number : acceptedGoal residue header message = some goalId := by
      rw [acceptedGoal, if_pos custom, read, Option.map_some]
    have queue : queued { s.server with
        goalQueue := s.server.goalQueue.insert goalId (data, source)
        activeGoals := insert goalId s.server.activeGoals
        phase := .popping } = [goalId] := by
      simp only [queued]
      rw [OrderedMap.insert_entries_of_empty (List.map_eq_nil_iff.mp empty)]
      rfl
    refine ⟨.accepted residue header message source goalId number before ?_ rfl rfl
      (by simp [number]), ?_, fun other => (other rfl).elim, fun x phase => ?_⟩
    · exact (pending_of_rests (by simp)).trans queue
    · exact queue ▸ Nat.le_refl 1
    · simp at phase
  · rename_i other
    obtain rfl := Option.some.inj accepted
    have number : acceptedGoal residue header message = none := if_neg other
    refine ⟨.same rfl rfl ?_ (by simp [number]) trivial ?_, drained.short,
      fun other => (other rfl).elim, fun x phase => ?_⟩
    · rw [before]
      exact (pending_of_rests (by simp)).trans empty
    · simp [Unmarked, number]
    · simp at phase

theorem move_change {s : State} {e : Event} {running : Bool} {threads : List Thread}
    {phase : ServerPhase} {outcome : Option Service.Outcome} (drained : Drained s.server)
    (before : ∀ x, s.server.phase ≠ .executing x) (after : ∀ x, phase ≠ .executing x)
    (filled : s.server.phase ≠ .popping) (none : NoneLeaves s e) (unmarked : Unmarked s e) :
    let server : Server := { s.server with
      running := running, threads := threads, phase := phase, cancelOutcome := outcome }
    Change s { s with server := server } e ∧ Drained server := by
  refine ⟨.same rfl rfl ?_ rfl none unmarked, drained.short, fun _ => drained.empty filled,
    fun x executing => absurd executing (after x)⟩
  exact (pending_of_rests after).trans (pending_of_rests before).symm

theorem stay_change {s : State} {e : Event} {running : Bool} {outcome : Option Service.Outcome}
    (drained : Drained s.server) (none : NoneLeaves s e) (unmarked : Unmarked s e) :
    let server : Server := { s.server with running := running, cancelOutcome := outcome }
    Change s { s with server := server } e ∧ Drained server :=
  ⟨.same rfl rfl rfl rfl none unmarked, drained.short, drained.empty, drained.known⟩

theorem cancel_change {s : State} (residue : Bytes) (request : Service.Request)
    (drained : Drained s.server) :
    Change s ⟨s.server.serveCancel residue request,
      s.log ++ (cancelledGoal request).toList.map .cancel⟩ (.cancel residue request) ∧
    Drained (s.server.serveCancel residue request) := by
  by_cases size : request.dataSize.toNat = 4
  · have number : cancelledGoal request = some (int32Of request.data) := if_pos size
    simp only [Server.serveCancel, Server.cancelCallback, size, ne_eq, not_true, if_false,
      number, Option.toList_some, List.map_singleton]
    split
    · rename_i active
      exact ⟨.cancelled residue request _ rfl rfl (if_pos active).symm rfl, drained.short,
        drained.empty, drained.known⟩
    · rename_i inactive
      exact ⟨.cancelled residue request _ rfl rfl (if_neg inactive).symm rfl, drained.short,
        drained.empty, drained.known⟩
  · have number : cancelledGoal request = none := if_neg size
    simp only [Server.serveCancel, size, ne_eq, not_false_eq_true, if_true, number,
      Option.toList_none, List.map_nil, List.append_nil]
    exact stay_change drained trivial trivial

theorem next_change {s t : State} {e : Event} (drained : Drained s.server)
    (taken : next s e = some t) : Change s t e ∧ Drained t.server := by
  cases e with
  | construct =>
    simp only [next, Option.bind_eq_bind, Option.bind_eq_some_iff, guard_passed,
      Option.some.injEq] at taken
    obtain ⟨_, absent, rfl⟩ := taken
    exact move_change drained (by simp [absent]) (by simp) (by simp [absent]) trivial trivial
  | start =>
    simp only [next, Option.bind_eq_bind, Option.bind_eq_some_iff, guard_passed,
      Option.some.injEq] at taken
    obtain ⟨_, rests, rfl⟩ := taken
    refine move_change drained ?_ (by simp) ?_ trivial trivial <;>
      rcases rests with phase | phase <;> simp [phase]
  | shutdown => exact Option.some.inj taken ▸ stay_change drained trivial trivial
  | poll =>
    simp only [next, Option.bind_eq_bind, Option.bind_eq_some_iff, guard_passed,
      Option.some.injEq] at taken
    obtain ⟨_, polling, rfl⟩ := taken
    refine move_change drained (by simp [polling]) ?_ (by simp [polling]) trivial trivial
    intro x
    split <;> simp
  | nothing =>
    simp only [next, Option.bind_eq_bind, Option.bind_eq_some_iff, guard_passed,
      Option.some.injEq] at taken
    obtain ⟨_, receiving, rfl⟩ := taken
    exact move_change drained (by simp [receiving]) (by simp) (by simp [receiving]) trivial trivial
  | goal residue header message source =>
    simp only [next, Option.bind_eq_bind, Option.bind_eq_some_iff, guard_passed,
      Option.some.injEq] at taken
    obtain ⟨_, receiving, server, accepted, rfl⟩ := taken
    exact accept_change residue header message source drained receiving accepted
  | pop =>
    simp only [next, Option.bind_eq_bind, Option.bind_eq_some_iff, guard_passed,
      Option.some.injEq] at taken
    obtain ⟨_, popping, rfl⟩ := taken
    exact pop_change drained popping
  | callbackReturns =>
    simp only [next] at taken
    split at taken
    · rename_i x phase
      obtain rfl := Option.some.inj taken
      obtain ⟨execution, known⟩ := drained.known x phase
      have empty := drained.empty (by simp [phase])
      refine ⟨.left .callbackReturns execution.goalId id ?_ ?_ rfl rfl rfl trivial, drained.short,
        fun _ => empty, fun x phase => ?_⟩
      · simp [pending, empty, executing, phase, known]
      · exact (pending_of_rests (by simp)).trans empty
      · simp at phase
    · contradiction
  | cancel residue request => exact Option.some.inj taken ▸ cancel_change residue request drained
  | answered => exact Option.some.inj taken ▸ stay_change drained trivial trivial

theorem reachable_drained {allowed : State → Event → Prop} {s : State}
    (reach : machine.ReachableWhen allowed s) : Drained s.server := by
  refine reach.invariant (fun s => Drained s.server) ?_ fun s e t drained _ taken =>
    (next_change drained taken).2
  rintro s rfl
  exact ⟨Nat.zero_le 1, fun _ => rfl, fun x phase => by simp [Server.absent] at phase⟩

/-! ### The law and its step -/

theorem Justified.change {s t : State} {e : Event} (justified : Justified s)
    (unmarked : Unmarked s e) (change : Change s t e) : Justified t := by
  cases change with
  | same _ marks goals log _ _ =>
    intro goalId member marked
    rw [goals] at member
    rw [log]
    exact justified goalId member (by simpa only [Server.isPreempted, marks] using marked)
  | accepted residue header message source goalId number _ after _ marks log =>
    -- the only pending goal is the new one, and its number is not marked
    intro other member marked
    rw [after, List.mem_singleton] at member
    subst member
    have fresh : s.server.isPreempted other = false := unmarked other number
    simp [Server.isPreempted, marks] at marked fresh
    exact absurd marked fresh
  | cancelled residue request goalId goals _ marks log =>
    intro other member marked
    rw [log]
    by_cases own : other = goalId
    · exact own ▸ cancelledSince_cancel s.log goalId
    · refine (justified other (goals ▸ member) ?_).append (by simp)
      simp only [Server.isPreempted, decide_eq_true_eq, marks] at marked ⊢
      split at marked
      · exact (Finset.mem_insert.mp marked).resolve_left own
      · exact marked
  | left e goalId _ _ after _ _ _ _ =>
    intro other member _
    simp [after] at member

theorem Tracked.change {s t : State} {e : Event} (tracked : Tracked s) (stays : NoneLeaves s e)
    (change : Change s t e) : Tracked t := by
  have unmarked : Unmarked s e := by
    cases change with
    | same _ _ _ _ _ unmarked | left _ _ _ _ _ _ _ _ unmarked => exact unmarked
    | cancelled => exact trivial
    | accepted residue header message source goalId number before _ _ _ _ =>
      -- nothing is pending, so nothing is active and nothing is marked
      intro other _
      have inactive : other ∉ s.server.activeGoals := by simp [tracked.active, before]
      exact decide_eq_false fun marked => inactive (tracked.preempted marked)
  have justified := tracked.justified.change unmarked change
  cases change with
  | same active marks goals _ _ _ =>
    exact ⟨by rw [active, goals]; exact tracked.active,
      by rw [active, marks]; exact tracked.preempted, justified⟩
  | accepted _ _ _ _ goalId _ before after active marks _ =>
    refine ⟨fun other => ?_, ?_, justified⟩
    · rw [active, after, Finset.mem_insert, tracked.active, before]
      simp
    · rw [active, marks]
      exact tracked.preempted.trans (Finset.subset_insert goalId s.server.activeGoals)
  | cancelled _ _ goalId goals active marks _ =>
    refine ⟨by rw [active, goals]; exact tracked.active, ?_, justified⟩
    rw [active, marks]
    split
    · rename_i known
      exact Finset.insert_subset known tracked.preempted
    · exact tracked.preempted
  | left _ _ leaves => exact absurd stays leaves

theorem Tracked.lost {s t : State} {e : Event} (tracked : Tracked s) (leaves : ¬ NoneLeaves s e)
    (change : Change s t e) : ¬ Tracked t := by
  intro after
  cases change with
  | same _ _ _ _ stays _ => exact leaves stays
  | accepted | cancelled => exact leaves trivial
  | left _ goalId _ before empty active _ _ _ =>
    have member : goalId ∈ t.server.activeGoals := by
      rw [active, tracked.active, before]
      exact List.mem_singleton_self goalId
    simp [after.active, empty] at member

theorem tracked_initial : Tracked ⟨.absent, []⟩ :=
  ⟨fun goalId => by simp [Server.absent, pending, queued, executing, OrderedMap.empty],
    Finset.Subset.refl _, fun goalId member => by
      simp [Server.absent, pending, queued, executing, OrderedMap.empty] at member⟩

/-- The collections agree with the goals in every run in which no goal leaves, and a step
breaks that exactly when a goal leaves; the marks of the goals are their own in every run in
which no number is accepted that is already marked. -/
theorem goals_tracked (s : State) :
    (machine.ReachableWhen NoneLeaves s → Tracked s) ∧
    (∀ e t, machine.Reachable s → Tracked s → next s e = some t →
      (Tracked t ↔ NoneLeaves s e)) ∧
    (machine.ReachableWhen Unmarked s → Justified s) := by
  refine ⟨fun reach => ?_, fun e t reach tracked taken => ?_, fun reach => ?_⟩
  · refine reach.invariant_of Tracked ?_ fun s e t before tracked stays taken =>
      tracked.change stays (next_change (reachable_drained before) taken).1
    rintro s rfl
    exact tracked_initial
  · have change := (next_change (reachable_drained reach) taken).1
    refine ⟨fun after => ?_, fun stays => tracked.change stays change⟩
    by_contra leaves
    exact tracked.lost leaves change after
  · refine reach.invariant_of Justified ?_ fun s e t before justified unmarked taken =>
      justified.change unmarked (next_change (reachable_drained before) taken).1
    rintro s rfl
    exact tracked_initial.justified

def goalOf (goalId : Int32) : Event :=
  .goal (List.replicate 272 0) ⟨.custom, 0, 0, 17, 0⟩
    (GoalHeader.ofGoal goalId 0 (oneByte 7)).image none

def cancelOf (goalId : Int32) : Event :=
  .cancel [] ⟨0, 1, 4, int32Bytes goalId, 0⟩

theorem goals_tracked_once :
    ∃ s, executing s.server = some 0 ∧ s.server.isPreempted 0 = true ∧ Tracked s := by
  obtain ⟨s, reach, marked⟩ := Machine.reachable_of_check machine NoneLeaves rfl
    [.construct, .start, .poll, goalOf 0, .pop, cancelOf 0]
    (fun s => decide (executing s.server = some 0 ∧ s.server.isPreempted 0 = true))
    (by decide +kernel)
  obtain ⟨runs, marked⟩ := of_decide_eq_true marked
  exact ⟨s, runs, marked, (goals_tracked s).1 reach⟩

/-- Goal 0 is executed and returns, a late cancel still marks it, and the first goal of a
restarted client, again number 0, is executed as preempted. -/
theorem goal_of_restarted_client_marked :
    ¬ ∀ s, machine.Reachable s →
      (∀ goalId, goalId ∈ s.server.activeGoals ↔ goalId ∈ pending s.server) ∧
      s.server.preemptedGoals ⊆ s.server.activeGoals ∧
      ∀ goalId, executing s.server = some goalId → s.server.isPreempted goalId = true →
        CancelledSince s.log goalId := by
  intro claim
  obtain ⟨s, reach, stale⟩ := Machine.reachable_of_check machine (fun _ _ => True) rfl
    [.construct, .start, .poll, goalOf 0, .pop, .callbackReturns, cancelOf 0, .poll, goalOf 0,
      .pop]
    (fun s => decide (executing s.server = some 0 ∧ s.server.isPreempted 0 = true ∧
      ¬ CancelledSince s.log 0)) (by decide +kernel)
  obtain ⟨runs, marked, before⟩ := of_decide_eq_true stale
  exact before ((claim s reach).2.2 0 runs marked)

/-! ### The server of a whole action -/

theorem reach_step {s t : State} (e : Event) (reach : machine.Reachable s)
    (taken : next s e = some t) : machine.Reachable t := .step reach trivial taken

section
variable {C : Type} [DecidableEq C]

theorem poll_server {s t : Action.State C} {stop : Bool}
    (taken : Action.next s (.poll stop) = some t) : s.server.phase = .polling ∧
      ((s.server.running = true ∧
          ∃ bus : ActionBus C, t.server = { s.server with phase := phaseAfter bus }) ∨
        (s.server.running = false ∧ t.server = { s.server with phase := .stopped })) := by
  simp only [Action.next, Option.bind_eq_bind, Option.bind_eq_some_iff, guard_passed] at taken
  obtain ⟨_, polling, taken⟩ := taken
  refine ⟨polling, ?_⟩
  split at taken
  · rename_i running
    obtain ⟨entered, onBus, taken⟩ := Option.bind_eq_some_iff.mp taken
    obtain ⟨bus, _, rfl⟩ := onBus_eq onBus
    obtain rfl := Option.some.inj taken
    exact .inl ⟨running, bus, rfl⟩
  · rename_i stops
    obtain rfl := Option.some.inj taken
    exact .inr ⟨Bool.not_eq_true _ ▸ stops, rfl⟩

theorem action_server {s : Action.State C} (reach : (Action.machine C).Reachable s) :
    ∃ log, machine.Reachable ⟨s.server, log⟩ := by
  refine reach.invariant (fun s => ∃ log, machine.Reachable ⟨s.server, log⟩) ?_ ?_
  · rintro s rfl
    exact ⟨[], .start rfl⟩
  · rintro s e t ⟨log, alone⟩ _ taken
    -- a receive that is entered goes on, or ends at once without a message
    have received (bus : ActionBus C) (before : s.server.phase = .receiving ∨
        s.server.phase = .polling ∧ s.server.running = true) :
        ∃ log, machine.Reachable ⟨{ s.server with phase := phaseAfter bus }, log⟩ := by
      have receiving : machine.Reachable ⟨{ s.server with phase := .receiving }, log⟩ := by
        rcases before with same | ⟨polling, running⟩
        · exact same ▸ alone
        · exact reach_step .poll alone (by simp [next, polling, running, guard])
      refine ⟨log, ?_⟩
      cases ends : phaseAfter bus with
      | receiving => exact receiving
      | popping => exact reach_step .nothing receiving (by simp [next, guard])
      | absent | constructed | polling | executing | stopped =>
        simp only [phaseAfter] at ends
        split at ends
        · split at ends <;> contradiction
        · contradiction
    cases next_step taken with
    | bus | published | connected | refused | sent | sendReturned | unheard | stored | got
    | cancelPosted | cancelWoken => exact ⟨log, alone⟩
    | constructed absent _ _ =>
      exact ⟨log, reach_step .construct alone (by simp [next, absent, guard])⟩
    | started constructed =>
      exact ⟨log, reach_step .start alone (by simp [next, constructed, guard])⟩
    | shutdown => exact ⟨log, reach_step .shutdown alone rfl⟩
    | stopped | polled =>
      obtain ⟨polling, ⟨running, bus, same⟩ | ⟨stops, same⟩⟩ := poll_server taken
      · exact same ▸ received bus (.inr ⟨polling, running⟩)
      · exact ⟨log, same ▸ reach_step .poll alone (by simp [next, polling, stops, guard])⟩
    | woken _ _ receiving _ => exact received _ (.inl receiving)
    | missed _ receiving _ _ =>
      exact ⟨log, reach_step .nothing alone (by simp [next, receiving, guard])⟩
    | @accepted residue bus r server receiving _ _ accepted =>
      exact ⟨_, reach_step (.goal residue r.header r.payload r.source) alone
        (by simp [next, receiving, accepted, guard]; rfl)⟩
    | popped popping => exact ⟨log, reach_step .pop alone (by simp [next, popping, guard])⟩
    | callbackReturned executes =>
      exact ⟨log, reach_step .callbackReturns alone (by simp [next, executes])⟩
    | cancelDriven => exact ⟨log, reach_step .answered alone rfl⟩
    | cancelServed residue request => exact ⟨_, reach_step (.cancel residue request) alone rfl⟩

theorem action_drained {s : Action.State C} (reach : (Action.machine C).Reachable s) :
    Drained s.server := by
  obtain ⟨log, alone⟩ := action_server reach
  exact reachable_drained alone

end

end ComIpc.Action.Goals
