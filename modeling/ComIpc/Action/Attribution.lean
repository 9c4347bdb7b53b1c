import ComIpc.Action.Numbering
import ComIpc.Action.Trace
import Mathlib.Data.Fintype.Basic

/-! Whose goal a result belongs to.

Each client numbers its goals from zero, all of them share the topics of the action, and
the maps of a client are keyed by the bare number. `pending_goals_` is never asked. A
report is therefore attributed by its number alone, and that is enough only as long as
no other client has given the same number out.
-/

set_option autoImplicit false

namespace ComIpc.Action

open Semantics

section
variable {C : Type}

/-- The data and the status of an answer are those of a report that the server published in
an execution of a goal which this client sent under the same number. -/
def Own (s : State C) (c : C) (a : Answer) : Prop :=
  ∃ k x timestamp report, a.source = some k ∧
    s.purposes k = some (.report a.outlet x a.goalId a.status timestamp report) ∧
    a.data = report.bytes ∧
    ∃ execution, s.server.executions[x]? = some execution ∧ execution.goalId = a.goalId ∧
      ∃ k' timestamp' goal, execution.source = some k' ∧
        s.purposes k' = some (.goal c a.goalId timestamp' goal) ∧ execution.data = goal.bytes

def Unshared (s : State C) : Event C → Prop
  | .get c _ goalId _ => ∀ other, other ≠ c → ¬ Numbered s other goalId
  | _ => True

def OwnAnswers (s : State C) (c : C) (client : Client) : Prop :=
  ∀ a ∈ client.answers, Own s c a

theorem OwnAnswers.same {s : State C} {c : C} {client after : Client}
    (own : OwnAnswers s c client) (answers : after.answers = client.answers) :
    OwnAnswers s c after :=
  fun a member => own a (answers ▸ member)

def Answered (s : State C) : Prop := ∀ c client, s.clients c = some client → OwnAnswers s c client

variable [DecidableEq C]

theorem Step.executions {s t : State C} {e : Event C} (step : Step s e t) :
    s.server.executions <+: t.server.executions := by
  cases step with
  | popped =>
    simp only [Server.pop]
    split
    · exact List.prefix_rfl
    · split
      · exact List.prefix_rfl
      · exact List.prefix_append _ _
  | accepted _ _ _ _ accepted =>
    unfold Server.accept at accepted
    split at accepted
    · obtain ⟨_, _, accepted⟩ := Option.bind_eq_some_iff.mp accepted
      exact Option.some.inj accepted ▸ List.prefix_rfl
    · exact Option.some.inj accepted ▸ List.prefix_rfl
  | cancelServed => simp
  | _ => exact List.prefix_rfl

theorem Own.kept {s t : State C} {e : Event C} (reach : (machine C).Reachable s)
    (step : Step s e t) {c : C} {a : Answer} (own : Own s c a) : Own t c a := by
  have extends_ := (next_noted (reachable_noted reach) step).2
  obtain ⟨k, x, timestamp, report, source, published, data, execution, known, goalId,
    k', timestamp', goal, source', sent, same⟩ := own
  obtain ⟨more, executions⟩ := step.executions
  have later : t.server.executions[x]? = some execution := by
    rw [← executions, List.getElem?_append_left (List.getElem?_eq_some_iff.mp known).1, known]
  exact ⟨k, x, timestamp, report, source, extends_ k _ published, data, execution, later,
    goalId, k', timestamp', goal, source', extends_ k' _ sent, same⟩

theorem got_own {s : State C} (server : ServerTraced s.purposes s.server)
    (clients : ClientsTraced s) (counted : Counted s) {c : C}
    {client after : Client} {outlet : Outlet} {goalId : Int32} {size : Nat}
    (found : s.clients c = some client) (got : client.get outlet goalId size = some after)
    (unshared : ∀ other, other ≠ c → ¬ Numbered s other goalId) (answered : Answered s) :
    OwnAnswers s c after := by
  obtain ⟨header, source, stored, fits, rfl⟩ := Client.get_eq got
  intro a member
  rcases List.mem_append.mp member with old | new
  · exact answered c client found a old
  · obtain rfl := List.mem_singleton.mp new
    obtain ⟨k, x, timestamp, report, named, published, length, data⟩ :=
      clients c client found outlet _ (OrderedMap.mem_of_find? stored)
    obtain ⟨execution, known, same⟩ := server.reported _ _ _ _ _ _ _ published
    obtain ⟨k', sender, timestamp', goal, source', sent, goalData⟩ :=
      server.executed execution (List.mem_of_getElem? known)
    simp only at same
    rw [same] at sent
    -- whoever sent the goal has given the number out, so it was this client
    obtain rfl : sender = c := by
      by_contra different
      exact unshared sender different (counted.goals _ _ _ _ _ sent)
    refine ⟨k, x, timestamp, report, named, published, ?_, execution, known, same, k',
      timestamp', goal, source', sent, goalData⟩
    rw [← fits, length, data]

theorem Answered.step {s t : State C} {e : Event C} (reach : (machine C).Reachable s)
    (server : ServerTraced s.purposes s.server) (clients : ClientsTraced s)
    (answered : Answered s) (unshared : Unshared s e) (step : Step s e t) : Answered t := by
  have later : ∀ {c client}, OwnAnswers s c client → OwnAnswers t c client :=
    fun own a member => (own a member).kept reach step
  have kept : ∀ c client, s.clients c = some client → OwnAnswers t c client :=
    fun c client found => later (answered c client found)
  cases step with
  | connected =>
    exact putClient_clients (OwnAnswers _) kept fun a member => absurd member List.not_mem_nil
  | refused _ _ _ _ found | sendReturned _ found | sent _ _ _ _ found =>
    exact putClient_clients (OwnAnswers _) kept ((kept _ _ found).same rfl)
  | @stored c outlet residue client _ r found =>
    obtain ⟨map, stored⟩ := client.store_eq outlet residue r.header r.payload r.source
    exact putClient_clients (OwnAnswers _) kept ((kept c client found).same (by simp [stored]))
  | got c outlet goalId size found got =>
    exact putClient_clients (OwnAnswers _) kept
      (later (got_own server clients (reachable_counted reach) found got unshared answered))
  | _ => exact kept

/-- Numbers tell the clients apart, and blocks are copied out before they are reused. -/
structure Attributable (s : State C) (e : Event C) : Prop where
  goals : GoalsIntact s e
  reports : ReportsIntact s e
  unshared : Unshared s e

/-- Whenever numbers tell the clients apart, every answer is an answer to the client's own
goal. -/
theorem answers_own_goal {s : State C} (reach : (machine C).ReachableWhen Attributable s) :
    Answered s := by
  refine reach.invariant_of Answered ?_ fun s e t reach answered allowed taken => ?_
  · rintro s rfl
    exact fun c client found => nomatch found
  · have server := reachable_serverTraced (reach.weaken fun _ _ => Attributable.goals)
    have clients := reachable_clientsTraced (reach.weaken fun _ _ => Attributable.reports)
    exact answered.step (reach.weaken fun _ _ _ => trivial) server clients allowed.unshared
      (next_step taken)

instance [Fintype C] (s : State C) (e : Event C) : Decidable (Unshared s e) :=
  match e with
  | .get c _ goalId _ =>
    inferInstanceAs (Decidable (∀ other, other ≠ c → ¬ Numbered s other goalId))
  | .construct | .start | .shutdown | .poll _ | .wake _ _ | .finish _ | .pop | .callbackReturns
  | .publish _ _ _ _ _ _ | .connect _ _ | .sendGoal _ _ _ _ _ | .sendReturns _ | .listen _ _ _
  | .listenWake _ _ _ _ | .listenFinish _ _ _ | .copyIn _ | .enqueue _ _ | .traffic _
  | .cancelGoal _ _ _ _ | .cancelClient _ | .cancelDriver _ | .cancelCallback _ => isTrue trivial

instance [Fintype C] (s : State C) (e : Event C) : Decidable (Attributable s e) :=
  decidable_of_iff (GoalsIntact s e ∧ ReportsIntact s e ∧ Unshared s e)
    ⟨fun ⟨goals, reports, unshared⟩ => ⟨goals, reports, unshared⟩,
      fun ⟨goals, reports, unshared⟩ => ⟨goals, reports, unshared⟩⟩

end

def oneGoal : List (Event (Fin 2)) :=
  [.construct, .start, .connect 0 100, .connect 1 101, .sendGoal 0 0 5 (oneByte 7) false,
    .copyIn 0, .enqueue 0 5, .sendReturns 0, .poll false, .finish (List.replicate 272 0), .pop,
    .publish 1 .result 0 2 6 (oneByte 42), .copyIn 1, .enqueue 1 6,
    .listen 0 .result false, .listenFinish 0 .result [], .listen 1 .result false,
    .listenFinish 1 .result []]

theorem answers_own_goal_first : ∃ s : State (Fin 2),
    (s.clients 0).map Client.answers = some [⟨.result, 0, 2, [42], some 1⟩] ∧ Answered s := by
  obtain ⟨s, reach, answer⟩ := Machine.reachable_of_check (machine (Fin 2)) Attributable rfl
    (oneGoal ++ [.get 0 .result 0 1, .sendGoal 1 2 5 (oneByte 8) false])
    (fun s => decide ((s.clients 0).map Client.answers =
      some [⟨.result, 0, 2, [42], some 1⟩])) (by decide +kernel)
  exact ⟨s, of_decide_eq_true answer, answers_own_goal reach⟩

/-- The other client sends its own goal 0, which nobody has executed yet, and asks for the
result of goal 0. -/
theorem answer_of_other_goal :
    ¬ ∀ s : State (Fin 2), (machine (Fin 2)).Reachable s → Answered s := by
  intro claim
  obtain ⟨s, reach, wrong⟩ := Machine.reachable_of_check (machine (Fin 2)) (fun _ _ => True) rfl
    (oneGoal ++ [.sendGoal 1 2 5 (oneByte 8) false, .copyIn 2, .enqueue 2 7, .sendReturns 1,
      .get 1 .result 0 1])
    (fun s => decide ((s.clients 1).map Client.answers =
      some [⟨.result, 0, 2, [42], some 1⟩] ∧ s.server.executions = [⟨0, [7], some 0⟩] ∧
      s.purposes 0 = some (.goal 0 0 5 (oneByte 7)))) (by decide +kernel)
  obtain ⟨answer, executions, sent⟩ := of_decide_eq_true wrong
  obtain ⟨client, found, answers⟩ := Option.map_eq_some_iff.mp answer
  obtain ⟨_, x, _, _, _, _, _, execution, known, _, k, _, _, source, own, _⟩ :=
    claim s reach 1 client found _ (answers ▸ List.mem_singleton_self _)
  rw [executions, List.getElem?_singleton] at known
  split at known
  · obtain rfl := Option.some.inj known
    obtain rfl := Option.some.inj source
    simp [sent] at own
  · contradiction

end ComIpc.Action
