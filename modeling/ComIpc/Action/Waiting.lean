import ComIpc.Action.Attribution
import ComIpc.Action.Reports
import ComIpc.Semantics.Monitor

/-! Threads that wait for the result of a goal.

`waitForResult` waits on a variable of the client, which `resultLoop` notifies in the
critical section in which it stores a result. `returned` is a ghost: the calls that
returned, with what they returned.
-/

set_option autoImplicit false

namespace ComIpc.Action

open Semantics

section
variable {C : Type}

def State.results (s : State C) (c : C) : Option (OrderedMap Int32 (ReportHeader × Option Nat)) :=
  (s.clients c).map Client.results

/-- `isFinished`, also the predicate that `waitForResult` waits for. -/
def isFinished (s : State C) (c : C) (goalId : Int32) : Bool :=
  (s.results c).any fun map => (map.find? goalId).isSome

/-- `resultLoop` stores what it has copied out, and calls `notify_all`. -/
def Notifies [DecidableEq C] (s : State C) (c : C) : Event C → Bool
  | .listenFinish c' .result _ => decide (c' = c) &&
    (s.copied .result (.client c .result)).any fun r =>
      decide (r.header.type = .custom ∧ ReportHeader.fixedSize ≤ r.header.dataSize.toNat)
  | _ => false

inductive ResultsChange [DecidableEq C] (s t : State C) (e : Event C) (c : C) : Prop where
  | same : t.results c = s.results c → ResultsChange s t e c
  | joined : s.results c = none → t.results c = some .empty → ResultsChange s t e c
  | stored {map : OrderedMap Int32 (ReportHeader × Option Nat)} (goalId : Int32)
      (entry : ReportHeader × Option Nat) : Notifies s c e = true → s.results c = some map →
      t.results c = some (map.insert goalId entry) → ResultsChange s t e c
  | taken {map : OrderedMap Int32 (ReportHeader × Option Nat)} (goalId : Int32) (size : Nat) :
      e = .get c .result goalId size → s.results c = some map →
      t.results c = some (map.erase goalId) → ResultsChange s t e c

variable [DecidableEq C]

theorem results_put {s t : State C} {c c' : C} {before after : Client}
    (known : s.clients c' = some before) (same : t.clients = s.clients)
    (results : after.results = before.results) :
    (t.putClient c' after).results c = s.results c := by
  by_cases self : c = c'
  · subst self
    rw [State.results, State.results, putClient_self, known, Option.map_some, Option.map_some,
      results]
  · rw [State.results, State.results, putClient_other _ _ self, same]

theorem Step.results {s t : State C} {e : Event C} (step : Step s e t) (c : C) :
    ResultsChange s t e c := by
  cases step with
  | connected c' _ absent =>
    by_cases self : c = c'
    · subst self
      exact .joined (by rw [State.results, absent]; rfl)
        (by rw [State.results, putClient_self]; rfl)
    · exact .same (by rw [State.results, putClient_other _ _ self]; rfl)
  | refused _ _ _ _ known | sendReturned _ known | sent _ _ _ _ known =>
    exact .same (results_put known rfl rfl)
  | @stored c' outlet residue client _ r known _ copied =>
    unfold Client.store
    split
    · rename_i report
      cases outlet with
      | feedback => exact .same (results_put known rfl rfl)
      | result =>
        by_cases self : c = c'
        · subst self
          have held : s.results c = some client.results := by
            rw [State.results, known]
            rfl
          refine .stored _ _ ?_ held (by rw [State.results, putClient_self]; rfl)
          simp only [Notifies, decide_true, Bool.true_and]
          rw [show s.copied .result (.client c .result) = some r from copied]
          exact decide_eq_true report
        · exact .same (by rw [State.results, putClient_other _ _ self]; rfl)
    · exact .same (results_put known rfl rfl)
  | @got c' outlet goalId size client _ known got =>
    obtain ⟨_, _, _, _, rfl⟩ := Client.get_eq got
    cases outlet with
    | feedback => exact .same (results_put known rfl rfl)
    | result =>
      by_cases self : c = c'
      · subst self
        have held : s.results c = some client.results := by
          rw [State.results, known]
          rfl
        exact .taken goalId size rfl held (by rw [State.results, putClient_self]; rfl)
      · exact .same (by rw [State.results, putClient_other _ _ self]; rfl)
  | _ => exact .same rfl

theorem Step.finished {s t : State C} {e : Event C} (step : Step s e t) {c : C} {goalId : Int32}
    (after : isFinished t c goalId = true) :
    isFinished s c goalId = true ∨ Notifies s c e = true := by
  unfold isFinished at *
  cases step.results c with
  | same results => exact .inl (results ▸ after)
  | joined _ results =>
    rw [results] at after
    exact nomatch after
  | stored _ _ notifies => exact .inr notifies
  | @taken map goalId' size _ before results =>
    rw [results, Option.any_some] at after
    rw [before, Option.any_some]
    by_cases same : goalId = goalId'
    · rw [same, OrderedMap.find?_erase_self] at after
      contradiction
    · exact .inl (OrderedMap.find?_erase_of_ne same ▸ after)

theorem Step.stays_finished {s t : State C} {e : Event C} (step : Step s e t) {c : C}
    {goalId : Int32} (before : isFinished s c goalId = true)
    (kept : ∀ size, e ≠ .get c .result goalId size) : isFinished t c goalId = true := by
  unfold isFinished at *
  cases step.results c with
  | same results => exact results ▸ before
  | joined absent =>
    rw [absent] at before
    exact nomatch before
  | @stored map goalId' entry _ had results =>
    rw [had, Option.any_some] at before
    rw [results, Option.any_some]
    by_cases same : goalId = goalId'
    · rw [same, OrderedMap.find?_insert_self]
      rfl
    · rw [OrderedMap.find?_insert_of_ne entry same]
      exact before
  | @taken map goalId' size taken had results =>
    rw [had, Option.any_some] at before
    rw [results, Option.any_some]
    have other : goalId ≠ goalId' := by
      rintro rfl
      exact kept size taken
    rw [OrderedMap.find?_erase_of_ne other]
    exact before

structure WaitCall (C : Type) where
  client : C
  goalId : Int32
  timeoutMs : Int
  deriving DecidableEq, Repr

structure Waits (C W : Type) where
  action : State C
  calls : W → Option (WaitCall C)
  returned : List (WaitCall C × Bool)

inductive WaitEvent (C W : Type) where
  | action (e : Event C)
  | waitForResult (w : W) (call : WaitCall C)
  /-- A thread comes out of the wait; `timedOut` is what `wait_until` tells it. -/
  | wake (w : W) (timedOut : Bool)

variable {W : Type} [DecidableEq W]

namespace Waits

def finished (s : Waits C W) (call : WaitCall C) : Bool :=
  isFinished s.action call.client call.goalId

def returns (s : Waits C W) (w : W) (call : WaitCall C) (result : Bool) : Waits C W :=
  { s with calls := Function.update s.calls w none, returned := s.returned ++ [(call, result)] }

def next (s : Waits C W) : WaitEvent C W → Option (Waits C W)
  | .action e => (Action.next s.action e).map fun action => { s with action := action }
  | .waitForResult w call => do
    guard ((s.calls w).isNone ∧ (s.action.clients call.client).isSome)
    if s.finished call then some (s.returns w call true)
    else some { s with calls := Function.update s.calls w (some call) }
  | .wake w timedOut => do
    let call ← s.calls w
    if s.finished call then some (s.returns w call true)
    -- `wait` has no deadline, and `wait_for` tests once more when its own is over
    else if call.timeoutMs > 0 ∧ timedOut then some (s.returns w call false)
    else some s

end Waits

def waits (C W : Type) [DecidableEq C] [DecidableEq W] : Machine (Waits C W) (WaitEvent C W) where
  initial := fun s => s = ⟨.init, fun _ => none, []⟩
  next := Waits.next

def resultWait : Monitor (Waits C W) (WaitEvent C W) W where
  acts := fun
    | .action _ => none
    | .waitForResult w _ | .wake w _ => some w
  waits := fun s w => (s.calls w).isSome
  ready := fun s w => ∃ call, s.calls w = some call ∧ s.finished call = true
  wakes := fun s e w => match e with
    | .action e => (s.calls w).any fun call => Notifies s.action call.client e
    | .waitForResult _ _ | .wake _ _ => false

theorem wake_eq {s t : Waits C W} {w : W} {timedOut : Bool}
    (taken : s.next (.wake w timedOut) = some t) : ∃ call, s.calls w = some call ∧
      ((s.finished call = true ∧ t = s.returns w call true) ∨
        (s.finished call = false ∧ (t = s.returns w call false ∨ t = s))) := by
  simp only [Waits.next, Option.bind_eq_bind, Option.bind_eq_some_iff] at taken
  obtain ⟨call, waiting, taken⟩ := taken
  refine ⟨call, waiting, ?_⟩
  split at taken
  · rename_i finished
    exact .inl ⟨finished, (Option.some.inj taken).symm⟩
  · rename_i pending
    refine .inr ⟨Bool.eq_false_iff.mpr pending, ?_⟩
    split at taken
    · exact .inl (Option.some.inj taken).symm
    · exact .inr (Option.some.inj taken).symm

theorem waitForResult_eq {s t : Waits C W} {w : W} {call : WaitCall C}
    (taken : s.next (.waitForResult w call) = some t) :
    (s.finished call = true ∧ t = s.returns w call true) ∨
      (s.finished call = false ∧
        t = { s with calls := Function.update s.calls w (some call) }) := by
  simp only [Waits.next, Option.bind_eq_bind, Option.bind_eq_some_iff] at taken
  obtain ⟨_, _, taken⟩ := taken
  split at taken
  · rename_i finished
    exact .inl ⟨finished, (Option.some.inj taken).symm⟩
  · rename_i pending
    exact .inr ⟨Bool.eq_false_iff.mpr pending, (Option.some.inj taken).symm⟩

theorem next_calls {s t : Waits C W} {e : WaitEvent C W} {w : W}
    (other : resultWait.acts e ≠ some w) (taken : s.next e = some t) : t.calls w = s.calls w := by
  cases e with
  | action e =>
    obtain ⟨_, _, rfl⟩ := Option.map_eq_some_iff.mp taken
    rfl
  | waitForResult w' call =>
    have apart : w ≠ w' := fun same => other (congrArg some same.symm)
    rcases waitForResult_eq taken with ⟨_, rfl⟩ | ⟨_, rfl⟩
    · exact Function.update_of_ne apart _ _
    · exact Function.update_of_ne apart _ _
  | wake w' timedOut =>
    have apart : w ≠ w' := fun same => other (congrArg some same.symm)
    obtain ⟨call, _, ⟨_, rfl⟩ | ⟨_, rfl | rfl⟩⟩ := wake_eq taken
    · exact Function.update_of_ne apart _ _
    · exact Function.update_of_ne apart _ _
    · rfl

theorem resultWait_kept : (resultWait (C := C) (W := W)).Kept (waits C W) (fun _ _ => True) where
  start := by
    rintro s rfl w waiting
    exact nomatch waiting
  own := by
    rintro s (e | ⟨w, call⟩ | ⟨w, timedOut⟩) t i _ taken own waiting ⟨call', there, finished⟩
    · exact nomatch own
    · obtain rfl := Option.some.inj own
      rcases waitForResult_eq taken with ⟨_, rfl⟩ | ⟨pending, rfl⟩
      · simp [Waits.returns] at there
      · simp only [Function.update_self, Option.some.injEq] at there
        subst there
        exact Bool.false_ne_true (pending.symm.trans finished)
    · obtain rfl := Option.some.inj own
      obtain ⟨call, known, ⟨_, rfl⟩ | ⟨pending, rfl | rfl⟩⟩ := wake_eq taken
      · simp [Waits.returns] at there
      · simp [Waits.returns] at there
      · obtain rfl := Option.some.inj (known.symm.trans there)
        exact Bool.false_ne_true (pending.symm.trans finished)
  asleep := by
    intro s e t w _ taken other waiting
    exact (congrArg Option.isSome (next_calls other taken)).symm.trans waiting
  other := by
    rintro s e t w _ taken other _ ⟨call, there, finished⟩
    have known := (next_calls other taken).symm.trans there
    cases e with
    | action e =>
      obtain ⟨action, stepped, rfl⟩ := Option.map_eq_some_iff.mp taken
      rcases (next_step stepped).finished finished with before | notifies
      · exact .inl ⟨call, known, before⟩
      · refine .inr ?_
        simp only [resultWait, known, Option.any_some]
        exact notifies
    | waitForResult w' call' =>
      rcases waitForResult_eq taken with ⟨_, rfl⟩ | ⟨_, rfl⟩
      · exact .inl ⟨call, known, finished⟩
      · exact .inl ⟨call, known, finished⟩
    | wake w' timedOut =>
      obtain ⟨_, _, ⟨_, rfl⟩ | ⟨_, rfl | rfl⟩⟩ := wake_eq taken
      · exact .inl ⟨call, known, finished⟩
      · exact .inl ⟨call, known, finished⟩
      · exact .inl ⟨call, known, finished⟩

/-- In every run, a call of `waitForResult` that no `notify_all` has reached waits for a goal
without a result; once the goal has one, the wake-up of the call returns true, whatever the
clock says. -/
theorem waiter_is_notified {v : Watched (Waits C W) W}
    (reach : (resultWait.watch (waits C W)).Reachable v) {w : W} {call : WaitCall C}
    (waiting : v.state.calls w = some call) :
    (v.notified w = false → v.state.finished call = false) ∧
    (v.state.finished call = true → ∀ timedOut,
      v.state.next (.wake w timedOut) = some (v.state.returns w call true)) := by
  constructor
  · intro asleep
    by_contra finished
    rw [Bool.not_eq_false] at finished
    have reached := resultWait_kept.notified reach
      (Option.isSome_iff_exists.mpr ⟨call, waiting⟩) ⟨call, waiting, finished⟩
    exact Bool.false_ne_true (asleep.symm.trans reached)
  · intro finished timedOut
    simp only [Waits.next, waiting, finished, Option.bind_eq_bind, Option.bind_some, if_true]

def TakesResult (c : C) (goalId : Int32) : WaitEvent C W → Prop
  | .action (.get c' .result goalId' _) => c' = c ∧ goalId' = goalId
  | _ => False

theorem told_finished {s t : Waits C W} {e : WaitEvent C W} {call : WaitCall C}
    (taken : s.next e = some t) (told : t.returned = s.returned ++ [(call, true)]) :
    t.finished call = true := by
  cases e with
  | action e =>
    obtain ⟨_, _, rfl⟩ := Option.map_eq_some_iff.mp taken
    exact absurd told (by simp)
  | waitForResult w call' =>
    rcases waitForResult_eq taken with ⟨finished, rfl⟩ | ⟨_, rfl⟩
    · obtain ⟨rfl, _⟩ : call' = call ∧ True := by simpa [Waits.returns] using told
      exact finished
    · exact absurd told (by simp)
  | wake w timedOut =>
    obtain ⟨call', _, ⟨finished, rfl⟩ | ⟨_, rfl | rfl⟩⟩ := wake_eq taken
    · obtain ⟨rfl, _⟩ : call' = call ∧ True := by simpa [Waits.returns] using told
      exact finished
    · exact absurd told (by simp [Waits.returns])
    · exact absurd told (by simp)

theorem next_finished {s t : Waits C W} {e : WaitEvent C W} {call : WaitCall C}
    (before : s.finished call = true) (kept : ¬ TakesResult call.client call.goalId e)
    (taken : s.next e = some t) : t.finished call = true := by
  cases e with
  | action e =>
    obtain ⟨action, stepped, rfl⟩ := Option.map_eq_some_iff.mp taken
    refine (next_step stepped).stays_finished before fun size same => kept ?_
    rw [same]
    exact ⟨rfl, rfl⟩
  | waitForResult w call' =>
    rcases waitForResult_eq taken with ⟨_, rfl⟩ | ⟨_, rfl⟩
    · exact before
    · exact before
  | wake w timedOut =>
    obtain ⟨_, _, ⟨_, rfl⟩ | ⟨_, rfl | rfl⟩⟩ := wake_eq taken
    · exact before
    · exact before
    · exact before

/-- When a call returns true, the goal is finished, and stays so through all steps of the other
threads until a `getResult` takes the result; `getResult` for the size that the result declares
then returns true, unless its copy leaves the array. -/
theorem result_stays_for_waiter {s t : Waits C W} {e : WaitEvent C W} {call : WaitCall C}
    (taken : (waits C W).next s e = some t) (told : t.returned = s.returned ++ [(call, true)])
    {u : Waits C W} (path : (waits C W).Before (fun _ _ => True)
      (fun _ e => TakesResult call.client call.goalId e) t u) :
    u.finished call = true ∧ ∃ client report source,
      u.action.clients call.client = some client ∧
      client.results.find? call.goalId = some (report, source) ∧
      (report.dataSize.toNat ≤ maxMsgSize → ∃ action,
        Action.next u.action
          (.get call.client .result call.goalId report.dataSize.toNat) = some action ∧
        action.answers call.client = u.action.answers call.client ++
          [⟨.result, call.goalId, report.status, report.data.take report.dataSize.toNat,
            source⟩]) := by
  have finished : u.finished call = true :=
    path.kept (fun u => u.finished call = true)
      (fun u e v before _ kept stepped => next_finished before kept stepped)
      (told_finished taken told)
  refine ⟨finished, ?_⟩
  obtain ⟨map, held, stored⟩ := (Option.any_eq_true _ _).mp finished
  obtain ⟨client, found, rfl⟩ := Option.map_eq_some_iff.mp held
  obtain ⟨⟨report, source⟩, here⟩ := Option.isSome_iff_exists.mp stored
  refine ⟨client, report, source, found, here, fun inside => ?_⟩
  have got : client.get .result call.goalId report.dataSize.toNat = some _ :=
    Client.get_of_find? here rfl
  have asked : next u.action (.get call.client .result call.goalId report.dataSize.toNat) =
      (client.get .result call.goalId report.dataSize.toNat).map
        (u.action.putClient call.client) := next_get inside found
  rw [got, Option.map_some] at asked
  refine ⟨_, asked, ?_⟩
  simp only [State.answers, putClient_self, found, Option.elim_some]

end

def waitedFor {C : Type} (schedule : List (Event C)) (c : C) : List (WaitEvent C Unit) :=
  schedule.map .action ++
    [.waitForResult () ⟨c, 0, 0⟩, .action (.listenFinish c .result [])]

theorem waiter_is_notified_once : ∃ v : Watched (Waits (Fin 2) Unit) Unit,
    v.notified () = true ∧ ∀ timedOut,
      v.state.next (.wake () timedOut) = some (v.state.returns () ⟨0, 0, 0⟩ true) := by
  obtain ⟨v, reach, facts⟩ := Machine.reachable_of_check
    (resultWait.watch (waits (Fin 2) Unit)) (fun _ _ => True)
    (s := ⟨⟨.init, fun _ => none, []⟩, fun _ => false⟩) ⟨rfl, rfl⟩ (waitedFor (oneGoal.take 15) 0)
    (fun v => decide (v.state.calls () = some ⟨0, 0, 0⟩ ∧ v.notified () = true ∧
      v.state.finished ⟨0, 0, 0⟩ = true)) (by decide +kernel)
  obtain ⟨waiting, notified, finished⟩ := of_decide_eq_true facts
  exact ⟨v, notified, (waiter_is_notified reach waiting).2 finished⟩

theorem result_stays_for_waiter_once : ∃ t : Waits (Fin 2) Unit,
    t.returned = [(⟨0, 0, 0⟩, true)] ∧ t.finished ⟨0, 0, 0⟩ = true := by
  obtain ⟨s, _, facts⟩ := Machine.reachable_of_check (waits (Fin 2) Unit) (fun _ _ => True)
    (s := ⟨.init, fun _ => none, []⟩) rfl (waitedFor (oneGoal.take 15) 0)
    (fun s => decide (s.returned = [] ∧
      ((waits (Fin 2) Unit).next s (.wake () false)).map Waits.returned =
        some [(⟨0, 0, 0⟩, true)])) (by decide +kernel)
  obtain ⟨before, told⟩ := of_decide_eq_true facts
  obtain ⟨t, taken, returned⟩ := Option.map_eq_some_iff.mp told
  refine ⟨t, returned, ?_⟩
  exact (result_stays_for_waiter taken (by rw [returned, before]; rfl) (.start rfl)).1

end ComIpc.Action
