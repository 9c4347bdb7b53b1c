import ComIpc.Action.Messages
import ComIpc.Semantics.OrderedMap
import ComIpc.Semantics.Until
import ComIpc.Service.Machine
import Mathlib.Data.Finset.Insert

/-! The members of an action server and what its functions do to them.

Each function below is one block under `mutex_`. `executions` and the sources of
queued goals are ghosts: the calls of the execute callback so far, and the
`publishRaw` call whose message a goal was read from.
-/

set_option autoImplicit false

namespace ComIpc.Action

open Semantics

@[ext] structure Execution where
  goalId : Int32
  data : Bytes
  source : Option Nat
  deriving DecidableEq, Repr

inductive Thread where
  | process
  | cancelService
  deriving DecidableEq, Repr

inductive ServerPhase where
  | absent
  | constructed
  | polling
  | receiving
  | popping
  | executing (execution : Nat)
  | stopped
  deriving DecidableEq, Repr

structure Server where
  running : Bool
  threads : List Thread
  phase : ServerPhase
  goalQueue : OrderedMap Int32 (Bytes × Option Nat)
  activeGoals : Finset Int32
  preemptedGoals : Finset Int32
  cancelOutcome : Option Service.Outcome
  executions : List Execution

namespace Server

def absent : Server := ⟨false, [], .absent, .empty, ∅, ∅, none, []⟩

/-- `start`; the thread of the cancel service is not started here. -/
def start (server : Server) : Server :=
  { server with running := true, threads := server.threads ++ [.process], phase := .polling }

/-- A received message of the goal topic; others than goals are dropped. -/
def accept (server : Server) (residue : Bytes) (header : MessageHeader) (message : Bytes)
    (source : Option Nat) : Option Server :=
  if header.type = .custom ∧ GoalHeader.fixedSize ≤ header.dataSize.toNat then do
    let (goalId, data) ← readGoal residue message
    -- a queued goal of the same number is replaced
    some { server with
      goalQueue := server.goalQueue.insert goalId (data, source)
      activeGoals := insert goalId server.activeGoals
      phase := .popping }
  else some { server with phase := .popping }

def pop (server : Server) : Server :=
  match server.goalQueue.first? with
  | none => { server with phase := .polling }
  | some ((goalId, data, source), rest) =>
    -- -1 stands for an empty queue, so a goal of that number is taken out and dropped
    if goalId = -1 then { server with goalQueue := rest, phase := .polling }
    else { server with
      goalQueue := rest
      executions := server.executions ++ [⟨goalId, data, source⟩]
      phase := .executing server.executions.length }

theorem pop_executions {server after : Server} (queue : after.goalQueue = server.goalQueue)
    (executions : after.executions = server.executions) :
    after.pop.executions = server.pop.executions := by
  simp only [pop, queue]
  split
  · exact executions
  · split
    · exact executions
    · simp only [executions]

theorem handed_iff {State Event : Type} (machine : Machine State Event) (server : State → Server)
    {pop : Event} (pops : ∀ u, (server u).phase = .popping →
      ∃ v, machine.next u pop = some v ∧ server v = (server u).pop)
    (keeps : ∀ u e v, machine.next u e = some v → (server u).phase = .popping → e ≠ pop →
      (server v).phase = .popping ∧ (server v).goalQueue = (server u).goalQueue ∧
        (server v).executions = (server u).executions)
    {s : State} (popping : (server s).phase = .popping) (holds : List Execution → Prop) :
    (∀ u, machine.Before (fun _ _ => True) (fun _ e => e = pop) s u →
      ∃ v, machine.next u pop = some v ∧ holds (server v).executions) ↔
      holds (server s).pop.executions := by
  have handed {u : State} (phase : (server u).phase = .popping) :
      (∃ v, machine.next u pop = some v ∧ holds (server v).executions) ↔
        holds (server u).pop.executions := by
    obtain ⟨v, taken, popped⟩ := pops u phase
    rw [← popped]
    constructor
    · rintro ⟨w, taken', holds⟩
      obtain rfl := Option.some.inj (taken.symm.trans taken')
      exact holds
    · exact fun holds => ⟨v, taken, holds⟩
  refine (Machine.Before.all_iff (fun u => (server u).phase = .popping ∧
    (server u).goalQueue = (server s).goalQueue ∧
      (server u).executions = (server s).executions)
    ?_ ⟨popping, rfl, rfl⟩ ?_).trans (handed popping)
  · intro u e v kept _ other taken
    obtain ⟨phase, queue, executions⟩ := keeps u e v taken kept.1 other
    exact ⟨phase, queue.trans kept.2.1, executions.trans kept.2.2⟩
  · intro u kept
    rw [handed kept.1, handed popping, pop_executions kept.2.1 kept.2.2]

theorem pop_empty {server : Server} (empty : server.goalQueue.entries = []) :
    server.pop.executions = server.executions := by
  unfold pop
  split
  · rfl
  · rename_i first
    rw [OrderedMap.first?_entries first] at empty
    contradiction

theorem accept_phase {server after : Server} {residue : Bytes} {header : MessageHeader}
    {message : Bytes} {source : Option Nat}
    (accepted : server.accept residue header message source = some after) :
    after.phase = .popping := by
  unfold accept at accepted
  split at accepted
  · obtain ⟨_, _, accepted⟩ := Option.bind_eq_some_iff.mp accepted
    exact Option.some.inj accepted ▸ rfl
  · exact Option.some.inj accepted ▸ rfl

theorem accept_pop {server : Server} (empty : server.goalQueue.entries = []) {residue : Bytes}
    {header : MessageHeader} {message : Bytes} (type : header.type = .custom)
    (whole : GoalHeader.fixedSize ≤ header.dataSize.toNat) (source : Option Nat) :
    (server.accept residue header message source).map (fun after => after.pop.executions) =
      (readGoal residue message).map fun read =>
        if read.1 = -1 then server.executions
        else server.executions ++ [⟨read.1, read.2, source⟩] := by
  rw [accept, if_pos ⟨type, whole⟩]
  cases readGoal residue message with
  | none => rfl
  | some read =>
    obtain ⟨goalId, data⟩ := read
    have only := OrderedMap.insert_entries_of_empty empty goalId (data, source)
    obtain ⟨rest, first⟩ := OrderedMap.first?_of_singleton only
    simp only [Option.bind_eq_bind, Option.bind_some, Option.map_some, pop, first]
    split <;> rfl

def isPreempted (server : Server) (goalId : Int32) : Bool :=
  decide (goalId ∈ server.preemptedGoals)

/-- `cancelCallback` with the number of cancelled goals it reports; it always returns true. -/
def cancelCallback (server : Server) (goalId : Int32) : Server × Int32 :=
  if goalId ∈ server.activeGoals then
    ({ server with preemptedGoals := insert goalId server.preemptedGoals }, 1)
  else (server, 0)

/-- The callback of the cancel service, over the bytes that `local_resp.data` held before. -/
def serveCancel (server : Server) (residue : Bytes) (request : Service.Request) : Server :=
  if request.dataSize.toNat ≠ 4 then { server with cancelOutcome := some ⟨false, residue, 0⟩ }
  else
    let (server, cancelledGoals) := server.cancelCallback (int32Of request.data)
    -- the reported success is that of `cancelCallback`, also for an unknown goal
    let response := int32Bytes 1 ++ int32Bytes cancelledGoals
    { server with cancelOutcome := some ⟨true, memcpy residue response 8, 8⟩ }

section
variable (server : Server) (residue : Bytes) (request : Service.Request)

@[simp] theorem serveCancel_phase : (server.serveCancel residue request).phase = server.phase := by
  simp only [serveCancel, cancelCallback]
  split <;> (try split) <;> rfl

@[simp] theorem serveCancel_goalQueue :
    (server.serveCancel residue request).goalQueue = server.goalQueue := by
  simp only [serveCancel, cancelCallback]
  split <;> (try split) <;> rfl

@[simp] theorem serveCancel_executions :
    (server.serveCancel residue request).executions = server.executions := by
  simp only [serveCancel, cancelCallback]
  split <;> (try split) <;> rfl

end

end Server

def cancelCall (goalId : Int32) : Service.Call :=
  ⟨⟨int32Bytes goalId, by rw [length_int32Bytes]; decide⟩, 8, by decide⟩

end ComIpc.Action
