import ComIpc.Action.Pace
import ComIpc.Semantics.Picking
import Mathlib.Data.Finset.Card

/-! Goals that are handed to the callback exactly once.

The ring of the goal topic holds many goals, but a receive reads only the newest slot
and skips the others. What `sendGoal` promised is kept as long as no goal overtakes the
one before it.
-/

set_option autoImplicit false

namespace ComIpc.Action

open Semantics

section
variable {C : Type}

def Unfilled (s : State C) : Prop :=
  ∀ sub ∈ (s.bus.topics .goal).subscribers .server,
    (s.bus.topics .goal).published.length < sub.deliveries.length + bufferSize

/-- No goal overtakes the one before it, and blocks are copied out before they are reused. -/
structure Prompt (s : State C) (e : Event C) : Prop where
  pace : KeepsPace s e
  intact : GoalsIntact s e

/-- The loop waits for a goal, and its test finds no new one. -/
def Idle (s : State C) : Prop :=
  ∃ sub ∈ (s.bus.topics .goal).subscribers .server, (∃ call, sub.phase = .waiting call) ∧
    ¬ sub.lastSeq < (s.bus.topics .goal).shm.seq

def Enqueued (s : State C) (goalId : Int32) : Prop :=
  ∃ k c timestamp goal call seq, s.purposes k = some (.goal c goalId timestamp goal) ∧
    s.bus.calls k = some call ∧ call.stage = .enqueued seq

/-- One call of the callback was for this number, and it got the goal that was sent. -/
def HandedOnce (s : State Unit) (goalId : Int32) : Prop :=
  ∃ k timestamp goal, s.purposes k = some (.goal () goalId timestamp goal) ∧
    s.server.executions.filter (fun x => x.goalId = goalId) = [⟨goalId, goal.bytes, some k⟩]

variable [DecidableEq C]

theorem Enqueued.kept {s t : State C} {e : Event C} (reach : (machine C).Reachable s)
    (step : Step s e t) {goalId : Int32} (enqueued : Enqueued s goalId) : Enqueued t goalId := by
  obtain ⟨k, c, timestamp, goal, call, seq, meant, known, stage⟩ := enqueued
  have extends_ := (next_noted (reachable_noted reach) step).2
  have keeps : Bus.Keeps s.bus.calls t.bus.calls := by
    rcases step.purposes with ⟨_, path⟩ | ⟨k, purpose, _, began⟩
    · exact path.sameCalls.keeps
    · exact (Bus.next_calls began).keeps
  obtain ⟨call', known', later⟩ := keeps k call known
  exact ⟨k, c, timestamp, goal, call', seq, extends_ k _ meant, known', later.stage seq stage⟩

def Returned (s : State C) (_ : C) (client : Client) : Prop :=
  ∀ goalId ∈ client.returned, Enqueued s goalId

theorem Returned.step {s t : State C} {e : Event C} (reach : (machine C).Reachable s)
    (returned : ∀ c client, s.clients c = some client → Returned s c client)
    (step : Step s e t) : ∀ c client, t.clients c = some client → Returned t c client := by
  have kept : ∀ c client, s.clients c = some client → Returned t c client :=
    fun c client found goalId member => (returned c client found goalId member).kept reach step
  cases step with
  | connected =>
    exact putClient_clients (Returned _) kept fun goalId member => absurd member List.not_mem_nil
  | refused _ _ _ _ found | sent _ _ _ _ found =>
    exact putClient_clients (Returned _) kept (kept _ _ found :)
  | sendReturned c found sending known stage meant =>
    refine putClient_clients (Returned _) kept fun goalId member => ?_
    rcases List.mem_append.mp member with old | new
    · exact kept c _ found goalId old
    · obtain rfl := List.mem_singleton.mp new
      exact ⟨_, _, _, _, _, _, meant, known, stage⟩
  | @stored c outlet residue client _ r found =>
    obtain ⟨map, stored⟩ := client.store_eq outlet residue r.header r.payload r.source
    refine putClient_clients (Returned _) kept fun goalId member => ?_
    rw [stored, Client.returned_setReports] at member
    exact kept c client found goalId member
  | got c outlet goalId size found got =>
    obtain ⟨_, _, _, _, rfl⟩ := Client.get_eq got
    refine putClient_clients (Returned _) kept fun goalId member => ?_
    exact kept c _ found goalId (by simpa using member)
  | _ => exact kept

theorem reachable_returned {s : State C} (reach : (machine C).Reachable s) :
    ∀ c client, s.clients c = some client → Returned s c client := by
  refine reach.invariant_of
    (fun s => ∀ c client, s.clients c = some client → Returned s c client) ?_
    fun s e t reach returned _ taken => Returned.step reach returned (next_step taken)
  rintro s rfl
  exact fun c client found => nomatch found

theorem reachable_paced {s : State C} (reach : (machine C).ReachableWhen Prompt s) :
    Paced s := by
  refine reach.invariant_of Paced ?_ fun s e t reach paced prompt taken => ?_
  · rintro s rfl
    exact ⟨by simp [State.init, Bus.State.init], by simp [Small, State.init],
      by simp [State.init, Bus.State.init, Server.absent, OrderedMap.empty],
      fun present => absurd rfl present⟩
  · have traced := reachable_serverTraced (reach.weaken fun _ _ => Prompt.intact)
    exact paced.step (reach.weaken fun _ _ _ => trivial) traced prompt.pace prompt.intact
      (next_step taken)

theorem sources_nodup {s : State C} (reach : (machine C).Reachable s)
    (own : none ∉ s.bus.sources .goal) : (s.bus.sources .goal).Nodup := by
  refine List.nodup_iff_count_le_one.mpr fun source => ?_
  cases source with
  | none => simp [List.count_eq_zero.mpr own]
  | some k => exact (Bus.reachable_placed (reachable_bus reach)).once .goal k

theorem source_goal {s : State C} (reach : (machine C).Reachable s)
    (own : none ∉ s.bus.sources .goal) {source : Option Nat}
    (member : source ∈ s.bus.sources .goal) : ∃ k c goalId timestamp goal, source = some k ∧
      s.purposes k = some (.goal c goalId timestamp goal) := by
  obtain ⟨n, found⟩ := List.mem_iff_getElem?.mp member
  have bound := (List.getElem?_eq_some_iff.mp found).1
  rw [(Bus.reachable_sound (reachable_bus reach)).aligned] at bound
  obtain ⟨k, c, goalId, timestamp, goal, source', meant, _⟩ :=
    publication_goal reach own (List.getElem?_eq_getElem bound)
  exact ⟨k, c, goalId, timestamp, goal, Option.some.inj (found.symm.trans source'), meant⟩

def numberOf (s : State C) (source : Option Nat) : Nat :=
  match source.bind s.purposes with
  | some (.goal _ goalId _ _) => goalId.toInt.toNat
  | _ => 0

/-- A single client runs out of numbers before the counter of the topic wraps. -/
theorem length_goals {s : State Unit} (reach : (machine Unit).Reachable s)
    (own : none ∉ s.bus.sources .goal) : (s.bus.topics .goal).published.length ≤ 2 ^ 31 := by
  have counted := reachable_counted reach
  -- the goals on the topic have different natural numbers below 2 ^ 31
  have distinct : ((s.bus.sources .goal).map (numberOf s)).Nodup := by
    refine List.Nodup.map_on ?_ (sources_nodup reach own)
    intro first here second there same
    obtain ⟨k, _, goalId, timestamp, goal, rfl, meant⟩ := source_goal reach own here
    obtain ⟨k', _, goalId', timestamp', goal', rfl, meant'⟩ := source_goal reach own there
    simp only [numberOf, Option.bind_some, meant, meant'] at same
    obtain ⟨_, _, natural, _⟩ := counted.goals k () goalId timestamp goal meant
    obtain ⟨_, _, natural', _⟩ := counted.goals k' () goalId' timestamp' goal' meant'
    have equal : goalId = goalId' := Int32.toInt_inj.mp (by omega)
    exact congrArg some (counted.unique k k' () goalId timestamp timestamp' goal goal' meant
      (equal ▸ meant'))
  have small : ((s.bus.sources .goal).map (numberOf s)).toFinset ⊆ Finset.range (2 ^ 31) := by
    intro number member
    obtain ⟨source, _, rfl⟩ := List.mem_map.mp (List.mem_toFinset.mp member)
    rw [Finset.mem_range, numberOf]
    split
    · rename_i goalId _ _ _
      have := goalId.toInt_lt
      omega
    · decide
  have bound := Finset.card_le_card small
  rw [List.toFinset_card_of_nodup distinct, Finset.card_range, List.length_map,
    (Bus.reachable_sound (reachable_bus reach)).aligned] at bound
  exact bound

theorem Paced.all_handed {s : State Unit} (reach : (machine Unit).Reachable s) (paced : Paced s)
    (idle : Idle s) : s.server.executions.map Execution.source = s.bus.sources .goal := by
  obtain ⟨sub, alive, ⟨call, waiting⟩, nothing⟩ := idle
  have present : s.server.phase ≠ .absent := by
    intro absent
    have := (paced.absent absent).1
    simp [Option.mem_def.mp alive] at this
  obtain ⟨sub', alive', pace⟩ := paced.pace present
  obtain rfl := Option.some.inj (Option.mem_def.mp alive |>.symm.trans alive')
  have consistent := Bus.reachable_consistent (reachable_bus reach) .goal
  have follows := consistent.follows _ sub alive
  have unread : (s.bus.topics .goal).published.length ≤ sub.seen + 1 := by
    simpa [takenBy, waiting] using pace.unread
  have few := length_goals reach paced.own
  -- with one goal left the counters differ and have not wrapped, so the test would pass
  have caughtUp : sub.seen = (s.bus.topics .goal).published.length := by
    rcases Nat.lt_or_eq_of_le follows.seen_le with behind | same
    · refine absurd ?_ nothing
      rw [follows.cursor, consistent.tracks.seq, UInt32.lt_iff_toNat_lt, UInt32.toNat_ofNat',
        UInt32.toNat_ofNat', Nat.mod_eq_of_lt (by omega), Nat.mod_eq_of_lt (by omega)]
      exact behind
    · exact same
  have receiving := pace.receiving (by simp [waiting])
  have empty : s.server.goalQueue.entries = [] :=
    pace.queue.resolve_right fun pops => by simp [receiving] at pops
  have handed := pace.handed
  rw [empty, List.map_nil, List.append_nil, caughtUp,
    ← (Bus.reachable_sound (reachable_bus reach)).aligned, List.take_length] at handed
  exact handed

theorem goal_placed {s : State C} (reach : (machine C).Reachable s) {k : Nat} {c : C}
    {goalId : Int32} {timestamp : Int64} {goal : Payload} {call : Bus.PublishCall Channel}
    {seq : UInt32} (meant : s.purposes k = some (.goal c goalId timestamp goal))
    (known : s.bus.calls k = some call) (stage : call.stage = .enqueued seq) :
    some k ∈ s.bus.sources .goal := by
  obtain ⟨call', known', topic, _⟩ := (reachable_noted reach).given k _ meant
  obtain rfl := Option.some.inj (known.symm.trans known')
  have place := (Bus.reachable_placed (reachable_bus reach)).found k call seq known stage
  rwa [topic] at place

theorem Counted.execution_source {s : State Unit} (counted : Counted s)
    (traced : ServerTraced s.purposes s.server) {x : Execution} (here : x ∈ s.server.executions)
    {k : Nat} {timestamp : Int64} {goal : Payload}
    (meant : s.purposes k = some (.goal () x.goalId timestamp goal)) : x.source = some k := by
  obtain ⟨k', _, timestamp', goal', named, meant', _⟩ := traced.executed x here
  rw [named, counted.unique k' k () x.goalId timestamp' timestamp goal' goal meant' meant]

/-- Whenever the loop waits and finds no new goal, every goal whose number was returned has
been handed to the callback once. -/
theorem executed_exactly_once {s : State Unit} (reach : (machine Unit).ReachableWhen Prompt s) :
    Idle s → ∀ client ∈ s.clients (), ∀ goalId ∈ client.returned, HandedOnce s goalId := by
  intro idle client found goalId member
  have anyReach := reach.weaken fun _ _ _ => trivial
  have paced := reachable_paced reach
  have traced := reachable_serverTraced (reach.weaken fun _ _ => Prompt.intact)
  have counted := reachable_counted anyReach
  obtain ⟨k, _, timestamp, goal, call, seq, meant, known, stage⟩ :=
    reachable_returned anyReach () client found goalId member
  -- the publication of the goal is among those that the loop has handed on
  have all := paced.all_handed anyReach idle
  have record : some k ∈ s.bus.sources .goal := goal_placed anyReach meant known stage
  obtain ⟨x, here, source⟩ := List.mem_map.mp (all ▸ record)
  obtain ⟨number, data⟩ := traced.execution_goal here source meant
  have only : ∀ y ∈ s.server.executions, decide (y.goalId = goalId) = true →
      y.source = x.source := by
    intro y there same
    obtain rfl := of_decide_eq_true same
    rw [source, counted.execution_source traced there meant]
  have once : (s.server.executions.map Execution.source).Nodup :=
    all ▸ sources_nodup anyReach paced.own
  refine ⟨k, timestamp, goal, meant, ?_⟩
  rw [filter_eq_singleton once here (decide_eq_true number) only]
  exact congrArg (fun x => [x]) (Execution.ext number data source)

instance (room : State C → Prop) [DecidablePred room] (s : State C) (e : Event C) :
    Decidable (Sends room s e) :=
  match e with
  | .sendGoal _ _ _ goal _ => inferInstanceAs (Decidable (s.server.phase ≠ .absent ∧
    GoalHeader.fixedSize + goal.bytes.length ≤ maxMsgSize))
  | .enqueue k _ =>
    inferInstanceAs (Decidable (∀ call ∈ s.bus.calls k, call.topic = .goal → room s))
  | .construct | .start | .shutdown | .poll _ | .wake _ _ | .finish _ | .pop | .callbackReturns
  | .publish _ _ _ _ _ _ | .connect _ _ | .sendReturns _ | .listen _ _ _ | .listenWake _ _ _ _
  | .listenFinish _ _ _ | .get _ _ _ _ | .copyIn _ | .traffic _ | .cancelGoal _ _ _ _
  | .cancelClient _ | .cancelDriver _ | .cancelCallback _ => isTrue trivial

instance : DecidablePred (CaughtUp (C := C)) := fun s =>
  inferInstanceAs (Decidable (∀ sub ∈ (s.bus.topics .goal).subscribers .server,
    takenBy sub = (s.bus.topics .goal).published.length))

instance : DecidablePred (Unfilled (C := C)) := fun s =>
  inferInstanceAs (Decidable (∀ sub ∈ (s.bus.topics .goal).subscribers .server,
    (s.bus.topics .goal).published.length < sub.deliveries.length + bufferSize))

instance (s : State C) (e : Event C) : Decidable (Prompt s e) :=
  decidable_of_iff (KeepsPace s e ∧ GoalsIntact s e)
    ⟨fun ⟨pace, intact⟩ => ⟨pace, intact⟩, fun ⟨pace, intact⟩ => ⟨pace, intact⟩⟩

end

def sendOne (k : Nat) (b : UInt8) : List (Event Unit) :=
  [.sendGoal () k 5 (oneByte b) false, .copyIn k, .enqueue k 5, .sendReturns ()]

def round : List (Event Unit) := [.poll false, .finish (List.replicate 272 0), .pop]

theorem executed_exactly_once_twice : ∃ s : State Unit, Idle s ∧
    (s.clients ()).map Client.returned = some [0, 1] ∧
    ∀ client ∈ s.clients (), ∀ goalId ∈ client.returned, HandedOnce s goalId := by
  obtain ⟨s, reach, waits⟩ := Machine.reachable_of_check (machine Unit) Prompt rfl
    ([.construct, .start, .connect () 100] ++ sendOne 0 7 ++ round ++ sendOne 1 8 ++
      [.callbackReturns] ++ round ++ [.callbackReturns, .poll false])
    (fun s => decide (((s.bus.topics .goal).subscribers .server).map
        (fun sub => (sub.phase, sub.lastSeq)) = some (.waiting loopReceive, 2) ∧
      (s.bus.topics .goal).shm.seq = 2 ∧
      (s.clients ()).map Client.returned = some [0, 1])) (by decide +kernel)
  obtain ⟨waiting, seq, returned⟩ := of_decide_eq_true waits
  obtain ⟨sub, alive, same⟩ := Option.map_eq_some_iff.mp waiting
  obtain ⟨phase, cursor⟩ := Prod.mk.inj same
  have idle : Idle s := ⟨sub, alive, ⟨_, phase⟩, by rw [cursor, seq]; decide⟩
  exact ⟨s, idle, returned, executed_exactly_once reach idle⟩

/-- Two goals arrive while the callback runs for the first one; the next receive reads the
newest of them and the other is never executed. -/
theorem goal_skipped :
    ¬ ∀ s : State Unit, (machine Unit).ReachableWhen (Sends Unfilled) s → Idle s →
      ∀ client ∈ s.clients (), ∀ goalId ∈ client.returned, HandedOnce s goalId := by
  intro claim
  obtain ⟨s, reach, waits⟩ := Machine.reachable_of_check (machine Unit) (Sends Unfilled) rfl
    ([.construct, .start, .connect () 100] ++ sendOne 0 7 ++ round ++ sendOne 1 8 ++ sendOne 2 9 ++
      [.callbackReturns] ++ round ++ [.callbackReturns, .poll false])
    (fun s => decide (((s.bus.topics .goal).subscribers .server).map
        (fun sub => (sub.phase, sub.lastSeq)) = some (.waiting loopReceive, 3) ∧
      (s.bus.topics .goal).shm.seq = 3 ∧
      (s.clients ()).map Client.returned = some [0, 1, 2] ∧
      s.server.executions.map Execution.goalId = [0, 2])) (by decide +kernel)
  obtain ⟨waiting, seq, returned, executed⟩ := of_decide_eq_true waits
  obtain ⟨sub, alive, same⟩ := Option.map_eq_some_iff.mp waiting
  obtain ⟨phase, cursor⟩ := Prod.mk.inj same
  obtain ⟨client, found, numbers⟩ := Option.map_eq_some_iff.mp returned
  have idle : Idle s := ⟨sub, alive, ⟨_, phase⟩, by rw [cursor, seq]; decide⟩
  obtain ⟨k, _, goal, _, once⟩ := claim s reach idle client found 1 (by simp [numbers])
  have member : (⟨1, goal.bytes, some k⟩ : Execution) ∈ s.server.executions := by
    refine List.mem_of_mem_filter (p := fun x => decide (x.goalId = 1)) ?_
    rw [once]
    exact List.mem_singleton_self _
  have number := List.mem_map_of_mem (f := Execution.goalId) member
  simp [executed] at number

end ComIpc.Action
