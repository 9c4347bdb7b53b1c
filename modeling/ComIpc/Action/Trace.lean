import ComIpc.Action.Origin

/-! Where the data of an action comes from.

What a loop copies out of an intact block is a goal that some client sent or a report
that the server published. The trace goes on from there through the queue, the callback
and the maps of the clients.
-/

set_option autoImplicit false

namespace ComIpc.Action

open Semantics

section
variable {C : Type}

def FromGoal (purposes : Nat → Option (Purpose C)) (goalId : Int32) (data : Bytes)
    (source : Option Nat) : Prop :=
  ∃ k c timestamp goal, source = some k ∧
    purposes k = some (.goal c goalId timestamp goal) ∧ data = goal.bytes

def FromReport (purposes : Nat → Option (Purpose C)) (outlet : Outlet) (goalId : Int32)
    (header : ReportHeader) (source : Option Nat) : Prop :=
  ∃ k x timestamp report, source = some k ∧
    purposes k = some (.report outlet x goalId header.status timestamp report) ∧
    header.dataSize.toNat = report.bytes.length ∧
    header.data.take report.bytes.length = report.bytes

theorem FromGoal.grow {before after : Nat → Option (Purpose C)} (grow : Extends before after)
    {goalId : Int32} {data : Bytes} {source : Option Nat}
    (from_ : FromGoal before goalId data source) : FromGoal after goalId data source := by
  obtain ⟨k, c, timestamp, goal, named, meant, same⟩ := from_
  exact ⟨k, c, timestamp, goal, named, grow k _ meant, same⟩

theorem FromReport.grow {before after : Nat → Option (Purpose C)} (grow : Extends before after)
    {outlet : Outlet} {goalId : Int32} {header : ReportHeader} {source : Option Nat}
    (from_ : FromReport before outlet goalId header source) :
    FromReport after outlet goalId header source := by
  obtain ⟨k, x, timestamp, report, named, meant, same⟩ := from_
  exact ⟨k, x, timestamp, report, named, grow k _ meant, same⟩

structure ServerTraced (purposes : Nat → Option (Purpose C)) (server : Server) : Prop where
  queued : ∀ e ∈ server.goalQueue.entries, FromGoal purposes e.1 e.2.1 e.2.2
  executed : ∀ x ∈ server.executions, FromGoal purposes x.goalId x.data x.source
  reported : ∀ k outlet x goalId status timestamp report,
    purposes k = some (.report outlet x goalId status timestamp report) →
    ∃ execution, server.executions[x]? = some execution ∧ execution.goalId = goalId

def ClientTraced (purposes : Nat → Option (Purpose C)) (client : Client) : Prop :=
  ∀ outlet, ∀ e ∈ (client.reports outlet).entries, FromReport purposes outlet e.1 e.2.1 e.2.2

namespace ServerTraced

variable {purposes : Nat → Option (Purpose C)} {server : Server}

theorem same (traced : ServerTraced purposes server) {after : Server}
    (queue : after.goalQueue = server.goalQueue)
    (executions : after.executions = server.executions) : ServerTraced purposes after where
  queued := queue ▸ traced.queued
  executed := executions ▸ traced.executed
  reported := executions ▸ traced.reported

theorem grow (traced : ServerTraced purposes server) {after : Nat → Option (Purpose C)}
    (extends_ : Extends purposes after)
    (reported : ∀ k outlet x goalId status timestamp report,
      after k = some (.report outlet x goalId status timestamp report) →
      purposes k = none →
      ∃ execution, server.executions[x]? = some execution ∧ execution.goalId = goalId) :
    ServerTraced after server where
  queued := fun e member => (traced.queued e member).grow extends_
  executed := fun x member => (traced.executed x member).grow extends_
  reported := by
    intro k outlet x goalId status timestamp report meant
    cases known : purposes k with
    | none => exact reported k outlet x goalId status timestamp report meant known
    | some purpose =>
      obtain rfl := Option.some.inj (meant.symm.trans (extends_ k purpose known))
      exact traced.reported k outlet x goalId status timestamp report known

theorem accept (traced : ServerTraced purposes server) {residue message : Bytes}
    {header : MessageHeader} {source : Option Nat} {after : Server}
    (origin : ∀ goalId data, readGoal residue message = some (goalId, data) →
      FromGoal purposes goalId data source)
    (accepted : server.accept residue header message source = some after) :
    ServerTraced purposes after := by
  unfold Server.accept at accepted
  split at accepted
  · obtain ⟨⟨goalId, data⟩, read, accepted⟩ := Option.bind_eq_some_iff.mp accepted
    obtain rfl := Option.some.inj accepted
    refine ⟨?_, traced.executed, traced.reported⟩
    intro e member
    rcases OrderedMap.mem_insert member with rfl | old
    · exact origin goalId data read
    · exact traced.queued e old
  · obtain rfl := Option.some.inj accepted
    exact traced.same rfl rfl

theorem pop (traced : ServerTraced purposes server) : ServerTraced purposes server.pop := by
  unfold Server.pop
  split
  · exact traced.same rfl rfl
  · rename_i goalId data source rest first
    have entries := OrderedMap.first?_entries first
    have remaining : ∀ e ∈ rest.entries, FromGoal purposes e.1 e.2.1 e.2.2 := by
      intro e member
      exact traced.queued e (entries ▸ List.mem_cons_of_mem _ member)
    split
    · exact ⟨remaining, traced.executed, traced.reported⟩
    · refine ⟨remaining, ?_, ?_⟩
      · intro x member
        rcases List.mem_append.mp member with old | new
        · exact traced.executed x old
        · obtain rfl := List.mem_singleton.mp new
          exact traced.queued _ (entries ▸ List.mem_cons_self)
      · intro k outlet x goalId' status timestamp report meant
        obtain ⟨execution, known, same⟩ :=
          traced.reported k outlet x goalId' status timestamp report meant
        exact ⟨execution,
          List.getElem?_append_left (List.getElem?_eq_some_iff.mp known).1 ▸ known, same⟩

theorem execution_goal (traced : ServerTraced purposes server) {x : Execution}
    (here : x ∈ server.executions) {k : Nat} {c : C} {goalId : Int32} {timestamp : Int64}
    {goal : Payload} (source : x.source = some k)
    (meant : purposes k = some (.goal c goalId timestamp goal)) :
    x.goalId = goalId ∧ x.data = goal.bytes := by
  obtain ⟨k', _, timestamp', goal', named, meant', data⟩ := traced.executed x here
  obtain rfl := Option.some.inj (source.symm.trans named)
  obtain ⟨_, same, _, rfl⟩ := Purpose.goal.inj (Option.some.inj (meant.symm.trans meant'))
  exact ⟨same.symm, data⟩

end ServerTraced

namespace ClientTraced

variable {purposes : Nat → Option (Purpose C)} {client : Client}

theorem init (purposes : Nat → Option (Purpose C)) : ClientTraced purposes .init := by
  intro outlet e member
  cases outlet <;> exact absurd member List.not_mem_nil

theorem same (traced : ClientTraced purposes client) {after : Client}
    (reports : ∀ outlet, after.reports outlet = client.reports outlet) :
    ClientTraced purposes after :=
  fun outlet e member => traced outlet e (reports outlet ▸ member)

theorem grow (traced : ClientTraced purposes client) {after : Nat → Option (Purpose C)}
    (extends_ : Extends purposes after) : ClientTraced after client :=
  fun outlet e member => (traced outlet e member).grow extends_

theorem store (traced : ClientTraced purposes client) {outlet : Outlet} {residue message : Bytes}
    {header : MessageHeader} {source : Option Nat}
    (origin : FromReport purposes outlet (readReport residue message).goalId
      (readReport residue message) source) :
    ClientTraced purposes (client.store outlet residue header message source) := by
  unfold Client.store
  split
  · intro other e member
    rw [Client.reports_setReports] at member
    split at member
    · rename_i self
      subst self
      rcases OrderedMap.mem_insert member with rfl | old
      · exact origin
      · exact traced other e old
    · exact traced other e member
  · exact traced

theorem get (traced : ClientTraced purposes client) {outlet : Outlet} {goalId : Int32}
    {size : Nat} {after : Client} (got : client.get outlet goalId size = some after) :
    ClientTraced purposes after := by
  obtain ⟨_, _, _, _, rfl⟩ := Client.get_eq got
  have erased : ClientTraced purposes
      (client.setReports ((client.reports outlet).erase goalId) outlet) := by
    intro other e member
    rw [Client.reports_setReports] at member
    split at member
    · rename_i self
      subst self
      exact traced other e (OrderedMap.mem_of_mem_erase member)
    · exact traced other e member
  exact erased.same fun other => by cases other <;> rfl

end ClientTraced

variable [DecidableEq C]

/-- The server copies no goal out of a block that was written over. -/
def GoalsIntact (s : State C) : Event C → Prop
  | .finish _ => ∀ r ∈ s.copied .goal .server, r.intact = true
  | _ => True

def ReportsIntact (s : State C) : Event C → Prop
  | .listenFinish c outlet _ => ∀ r ∈ s.copied outlet.channel (.client c outlet), r.intact = true
  | _ => True

instance (s : State C) (e : Event C) : Decidable (GoalsIntact s e) :=
  match e with
  | .finish _ => inferInstanceAs (Decidable (∀ r ∈ s.copied .goal .server, r.intact = true))
  | .construct | .start | .shutdown | .poll _ | .wake _ _ | .pop | .callbackReturns
  | .publish _ _ _ _ _ _ | .connect _ _ | .sendGoal _ _ _ _ _ | .sendReturns _ | .listen _ _ _
  | .listenWake _ _ _ _ | .listenFinish _ _ _ | .get _ _ _ _ | .copyIn _ | .enqueue _ _
  | .traffic _ | .cancelGoal _ _ _ _ | .cancelClient _ | .cancelDriver _
  | .cancelCallback _ => isTrue trivial

instance (s : State C) (e : Event C) : Decidable (ReportsIntact s e) :=
  match e with
  | .listenFinish c outlet _ => inferInstanceAs
    (Decidable (∀ r ∈ s.copied outlet.channel (.client c outlet), r.intact = true))
  | .construct | .start | .shutdown | .poll _ | .wake _ _ | .finish _ | .pop | .callbackReturns
  | .publish _ _ _ _ _ _ | .connect _ _ | .sendGoal _ _ _ _ _ | .sendReturns _ | .listen _ _ _
  | .listenWake _ _ _ _ | .get _ _ _ _ | .copyIn _ | .enqueue _ _ | .traffic _
  | .cancelGoal _ _ _ _ | .cancelClient _ | .cancelDriver _
  | .cancelCallback _ => isTrue trivial

theorem copied_purpose {s : State C} (reach : (machine C).Reachable s) {channel : Channel}
    {reader : Reader C} {r : Bus.Receipt Channel Nat (Reader C)}
    (own : ∀ n, channel ≠ .other n) (copied : s.copied channel reader = some r)
    (intact : r.intact = true) : ∃ k purpose, r.source = some k ∧
      s.purposes k = some purpose ∧ purpose.channel = channel ∧
      r.header.type = .custom ∧ r.header.dataSize.toNat = purpose.message.length ∧
      r.payload = purpose.message := by
  simp only [State.copied, Option.bind_eq_bind, Option.bind_eq_some_iff] at copied
  obtain ⟨sub, alive, first⟩ := copied
  have member := List.mem_of_mem_head? first
  have onBus := reachable_bus reach
  have faithful := (Bus.reachable_sound onBus).copyOut
    ((Bus.reachable_consistent onBus channel).follows reader sub alive) r member
  obtain ⟨topic, source, _⟩ := Bus.mem_copyOut member
  -- an intact block belongs to a call of `publishRaw`; loans have no source
  obtain ⟨k, named⟩ : ∃ k, r.source = some k := by
    rw [intact] at source
    cases named : r.source with
    | none => simp [named, Bus.State.intact] at source
    | some k => exact ⟨k, rfl⟩
  obtain ⟨call, found, onTopic, describes, payload⟩ := faithful k named intact
  have noted := reachable_noted reach
  rcases noted.meant k call found with ⟨purpose, meant⟩ | ⟨n, other⟩
  · obtain ⟨call', found', channel_, type, data⟩ := noted.given k purpose meant
    obtain rfl := Option.some.inj (found.symm.trans found')
    refine ⟨k, purpose, named, meant, ?_, describes.type.trans type, ?_, payload.trans data⟩
    · rw [← channel_, onTopic, topic]
    · rw [describes.size, data]
  · exact absurd (topic.symm.trans (onTopic.symm.trans other)) (own n)

theorem copied_goal {s : State C} (reach : (machine C).Reachable s)
    {r : Bus.Receipt Channel Nat (Reader C)} (copied : s.copied .goal .server = some r)
    (intact : r.intact = true) : ∃ k c goalId timestamp goal, r.source = some k ∧
      s.purposes k = some (.goal c goalId timestamp goal) ∧ r.header.type = .custom ∧
      r.header.dataSize.toNat = GoalHeader.fixedSize + goal.bytes.length ∧
      r.payload = (GoalHeader.ofGoal goalId timestamp goal).image := by
  obtain ⟨k, purpose, named, meant, channel, type, size, payload⟩ :=
    copied_purpose reach (fun _ => Channel.noConfusion) copied intact
  cases purpose with
  | goal c goalId timestamp goal =>
    refine ⟨k, c, goalId, timestamp, goal, named, meant, type, ?_, payload⟩
    rw [size, Purpose.message, GoalHeader.length_image, GoalHeader.ofGoal]
  | report outlet => cases outlet <;> cases channel

theorem copied_report {s : State C} (reach : (machine C).Reachable s) {outlet : Outlet}
    {reader : Reader C} {r : Bus.Receipt Channel Nat (Reader C)}
    (copied : s.copied outlet.channel reader = some r) (intact : r.intact = true)
    (residue : Bytes) :
    FromReport s.purposes outlet (readReport residue r.payload).goalId
      (readReport residue r.payload) r.source := by
  obtain ⟨k, purpose, named, meant, channel, _, _, payload⟩ :=
    copied_purpose reach (fun _ => by cases outlet <;> exact Channel.noConfusion) copied intact
  cases purpose with
  | goal => cases outlet <;> cases channel
  | report outlet' x goalId status timestamp report =>
    have same : outlet' = outlet := by
      cases outlet <;> cases outlet' <;> first | rfl | cases channel
    obtain ⟨goalId_, status_, size, data⟩ :=
      readReport_image residue goalId status timestamp report
    rw [payload]
    refine ⟨k, x, timestamp, report, named, ?_, size, data⟩
    simp only [Purpose.message, goalId_, status_]
    exact same ▸ meant

theorem putClient_clients {s : State C} {c : C} {client : Client} (holds : C → Client → Prop)
    (others : ∀ c client, s.clients c = some client → holds c client) (new : holds c client) :
    ∀ c' client', (s.putClient c client).clients c' = some client' → holds c' client' := by
  intro c' client' known
  by_cases self : c' = c
  · subst self
    simp only [State.putClient, Function.update_self, Option.some.injEq] at known
    exact known ▸ new
  · simp only [State.putClient, Function.update_of_ne self] at known
    exact others c' client' known

theorem ServerTraced.step {s t : State C} {e : Event C} (reach : (machine C).Reachable s)
    (traced : ServerTraced s.purposes s.server) (intact : GoalsIntact s e) (step : Step s e t) :
    ServerTraced t.purposes t.server := by
  have extends_ := (next_noted (reachable_noted reach) step).2
  cases step with
  | accepted residue _ _ copied accepted =>
    obtain ⟨k, c, goalId, timestamp, goal, named, meant, _, _, payload⟩ :=
      copied_goal reach copied (intact _ copied)
    refine traced.accept ?_ accepted
    intro goalId' data read
    rw [payload, readGoal_image, Option.some.injEq, Prod.mk.injEq] at read
    obtain ⟨rfl, rfl⟩ := read
    exact ⟨k, c, timestamp, goal, named, meant, rfl⟩
  | popped => exact traced.pop
  | published k outlet x status timestamp report known taken =>
    refine traced.grow extends_ ?_
    intro k' outlet' x' goalId status' timestamp' report' meant fresh
    by_cases self : k' = k
    · subst self
      simp only [Function.update_self, Option.some.injEq, Purpose.report.injEq] at meant
      obtain ⟨_, rfl, rfl, _⟩ := meant
      exact ⟨_, known, rfl⟩
    · simp [self, fresh] at meant
  | sent c k timestamp goal found _ _ taken =>
    refine traced.grow extends_ ?_
    intro k' outlet' x' goalId status' timestamp' report' meant fresh
    by_cases self : k' = k
    · subst self
      simp [State.putClient] at meant
    · simp [State.putClient, self, fresh] at meant
  | cancelServed => exact traced.same (by simp) (by simp)
  | _ => exact traced.same rfl rfl

def ClientsTraced (s : State C) : Prop :=
  ∀ c client, s.clients c = some client → ClientTraced s.purposes client

theorem ClientsTraced.step {s t : State C} {e : Event C} (reach : (machine C).Reachable s)
    (traced : ClientsTraced s) (intact : ReportsIntact s e) (step : Step s e t) :
    ClientsTraced t := by
  have extends_ := (next_noted (reachable_noted reach) step).2
  have grown : ∀ c client, s.clients c = some client → ClientTraced t.purposes client :=
    fun c client found => (traced c client found).grow extends_
  cases step with
  | connected => exact putClient_clients (fun _ => ClientTraced _) grown (.init _)
  | refused _ _ _ _ found | sendReturned _ found | sent _ _ _ _ found =>
    exact putClient_clients (fun _ => ClientTraced _) grown
      ((grown _ _ found).same fun outlet => by cases outlet <;> rfl)
  | stored c outlet residue found _ copied =>
    exact putClient_clients (fun _ => ClientTraced _) grown
      ((grown _ _ found).store (copied_report reach copied (intact _ copied) residue))
  | got c outlet goalId size found got =>
    exact putClient_clients (fun _ => ClientTraced _) grown ((grown _ _ found).get got)
  | _ => exact grown

theorem reachable_serverTraced {s : State C} (reach : (machine C).ReachableWhen GoalsIntact s) :
    ServerTraced s.purposes s.server := by
  refine reach.invariant_of (fun s => ServerTraced s.purposes s.server) ?_
    fun s e t reach traced intact taken =>
      traced.step (reach.weaken fun _ _ _ => trivial) intact (next_step taken)
  rintro s rfl
  exact ⟨by simp [State.init, Server.absent, OrderedMap.empty],
    by simp [State.init, Server.absent], by simp [State.init]⟩

theorem reachable_clientsTraced {s : State C}
    (reach : (machine C).ReachableWhen ReportsIntact s) : ClientsTraced s := by
  refine reach.invariant_of ClientsTraced ?_ fun s e t reach traced intact taken =>
    traced.step (reach.weaken fun _ _ _ => trivial) intact (next_step taken)
  rintro s rfl
  exact fun c client found => nomatch found

end

end ComIpc.Action
