import ComIpc.Action.Arrival

/-! What reaches the clients of an action.

The maps of a client hold what its loops have copied out, and a loop copies no message out
twice. So what is handed out after a message was read comes from this very message, or
the message was dropped.
-/

set_option autoImplicit false

namespace ComIpc.Action

open Semantics

section
variable {C : Type}

/-- A stored report is of a message behind the cursor of its loop. -/
def ClientBehind (bus : ActionBus C) (c : C) (client : Client) : Prop :=
  ∀ outlet, ∀ e ∈ (client.reports outlet).entries, ∀ k, e.2.2 = some k →
    Bus.Behind bus outlet.channel (.client c outlet) k

theorem ClientBehind.same {bus : ActionBus C} {c : C} {client after : Client}
    (behind : ClientBehind bus c client)
    (reports : ∀ outlet, after.reports outlet = client.reports outlet) :
    ClientBehind bus c after := fun outlet e member => behind outlet e (reports outlet ▸ member)

variable [DecidableEq C]

theorem Step.behind {s t : State C} {e : Event C} (reach : (machine C).Reachable s)
    (step : Step s e t) {channel : Channel} {reader : Reader C} {k : Nat}
    (behind : Bus.Behind s.bus channel reader k) : Bus.Behind t.bus channel reader k := by
  have onBus := reachable_bus reach
  rcases step.purposes with ⟨_, schedule, _, path⟩ | ⟨_, _, _, began⟩
  · refine (Machine.Continues.kept (fun bus =>
      (Bus.machine Channel Nat (Reader C)).Reachable bus ∧ Bus.Behind bus channel reader k) ?_
      ⟨onBus, behind⟩ ⟨schedule, path⟩).2
    rintro bus e bus' ⟨before, behind⟩ taken
    exact ⟨before.step trivial taken, behind.next (Bus.reachable_consistent before) taken⟩
  · exact behind.next (Bus.reachable_consistent onBus) began

theorem ClientsBehind.step {s t : State C} {e : Event C} (reach : (machine C).Reachable s)
    (behind : ∀ c client, s.clients c = some client → ClientBehind s.bus c client)
    (step : Step s e t) : ∀ c client, t.clients c = some client → ClientBehind t.bus c client := by
  have kept : ∀ c client, s.clients c = some client → ClientBehind t.bus c client :=
    fun c client found outlet e member k named =>
      step.behind reach (behind c client found outlet e member k named)
  cases step with
  | connected =>
    refine putClient_clients (ClientBehind _) kept fun outlet e member => ?_
    cases outlet <;> exact absurd member List.not_mem_nil
  | refused _ _ _ _ found | sendReturned _ found | sent _ _ _ _ found =>
    exact putClient_clients (ClientBehind _) kept
      ((kept _ _ found).same fun outlet => by cases outlet <;> rfl)
  | @stored c outlet residue client bus r found finished copied =>
    refine putClient_clients (ClientBehind bus) kept fun other e member k named => ?_
    unfold Client.store at member
    split at member
    · rw [Client.reports_setReports] at member
      split at member
      · rename_i self
        subst self
        rcases OrderedMap.mem_insert member with rfl | old
        · simp only [State.copied, Option.bind_eq_bind, Option.bind_eq_some_iff] at copied
          obtain ⟨sub, alive, first⟩ := copied
          exact Bus.behind_finish (Bus.reachable_consistent (reachable_bus reach)) finished alive
            (List.mem_of_mem_head? first) named
        · exact kept c client found other e old k named
      · exact kept c client found other e member k named
    · exact kept c client found other e member k named
  | @got c outlet goalId size client _ found got =>
    obtain ⟨_, _, _, _, rfl⟩ := Client.get_eq got
    have erased : ClientBehind s.bus c
        (client.setReports ((client.reports outlet).erase goalId) outlet) := by
      intro other e member k named
      rw [Client.reports_setReports] at member
      split at member
      · rename_i self
        subst self
        exact kept c _ found other e (OrderedMap.mem_of_mem_erase member) k named
      · exact kept c _ found other e member k named
    exact putClient_clients (ClientBehind _) kept
      (erased.same fun other => by cases other <;> rfl)
  | _ => exact kept

theorem reachable_clientsBehind {s : State C} (reach : (machine C).Reachable s) :
    ∀ c client, s.clients c = some client → ClientBehind s.bus c client := by
  refine reach.invariant_of
    (fun s => ∀ c client, s.clients c = some client → ClientBehind s.bus c client) ?_
    fun s e t reach behind _ taken => ClientsBehind.step reach behind (next_step taken)
  rintro s rfl
  exact fun c client found => nomatch found

theorem not_stored {s : State C} (reach : (machine C).Reachable s) {c : C} {client : Client}
    (found : s.clients c = some client) {outlet : Outlet} {k : Nat}
    (reading : s.reading outlet.channel (.client c outlet) = some k) :
    ∀ e ∈ (client.reports outlet).entries, e.2.2 ≠ some k := by
  intro e member named
  obtain ⟨sub, header, publication, alive, held, source⟩ := reading_eq reading
  have behind := reachable_clientsBehind reach c client found outlet e member k named
  exact behind.not_held (reachable_bus reach) alive held source

def State.answers (s : State C) (c : C) : List Answer := (s.clients c).elim [] Client.answers

/-- Steps after which another message may be stored under the number, or none. -/
def Replaces (c : C) (outlet : Outlet) (goalId : Int32) : Event C → Prop
  | .listenFinish c' outlet' _ => c' = c ∧ outlet' = outlet
  | .get c' outlet' goalId' _ => c' = c ∧ outlet' = outlet ∧ goalId' = goalId
  | _ => False

/-- `getFeedback` or `getResult` for the type of the report returns true with exactly this
report, whatever the other threads do before it is called. -/
def ReportArrives (s : State C) (c : C) (outlet : Outlet) (residue : Bytes) (k : Nat)
    (goalId status : Int32) (report : Payload) : Prop :=
  ∃ t, next s (.listenFinish c outlet residue) = some t ∧
    ∀ u, (machine C).Before (fun _ _ => True) (fun _ => Replaces c outlet goalId) t u →
      ∃ v, next u (.get c outlet goalId report.bytes.length) = some v ∧
        v.answers c = u.answers c ++ [⟨outlet, goalId, status, report.bytes, some k⟩]

/-- The message has room in the receive buffer, and in its block nothing but the time was
written over. -/
structure ReportKept (s : State C) (k : Nat) (goalId status : Int32) (report : Payload) :
    Prop where
  fits : ReportHeader.fixedSize + report.bytes.length ≤ maxMsgSize
  block : ∃ timestamp, s.block k = (ReportHeader.ofReport goalId status timestamp report).image

theorem putClient_self (s : State C) (c : C) (client : Client) :
    (s.putClient c client).clients c = some client := Function.update_self _ _ _

theorem putClient_other (s : State C) {c c' : C} (client : Client) (other : c' ≠ c) :
    (s.putClient c client).clients c' = s.clients c' := Function.update_of_ne other _ _

theorem Step.report {s t : State C} {e : Event C} (step : Step s e t) {c : C} {outlet : Outlet}
    {goalId : Int32} {entry : ReportHeader × Option Nat} (other : ¬ Replaces c outlet goalId e)
    (stored : ∃ client, s.clients c = some client ∧
      (client.reports outlet).find? goalId = some entry) :
    ∃ client, t.clients c = some client ∧ (client.reports outlet).find? goalId = some entry := by
  obtain ⟨client, found, here⟩ := stored
  have put {s' : State C} {c' : C} {before after : Client} (same : s'.clients = s.clients)
      (known : s.clients c' = some before)
      (keeps : c' = c → (before.reports outlet).find? goalId = some entry →
        (after.reports outlet).find? goalId = some entry) :
      ∃ client, (s'.putClient c' after).clients c = some client ∧
        (client.reports outlet).find? goalId = some entry := by
    by_cases self : c = c'
    · subst self
      obtain rfl := Option.some.inj (known.symm.trans found)
      exact ⟨after, putClient_self s' c after, keeps rfl here⟩
    · exact ⟨client, (putClient_other s' after self).trans (same ▸ found), here⟩
  cases step with
  | connected c' _ absent =>
    have self : c ≠ c' := by
      rintro rfl
      rw [absent] at found
      contradiction
    exact ⟨client, (putClient_other _ _ self).trans found, here⟩
  | refused _ _ _ _ known | sendReturned _ known | sent _ _ _ _ known =>
    exact put rfl known fun _ before => by cases outlet <;> exact before
  | @stored c' outlet' residue old _ r known =>
    refine put rfl known fun self before => ?_
    have differs : outlet ≠ outlet' := fun same => other ⟨self, same.symm⟩
    obtain ⟨map, stored⟩ := old.store_eq outlet' residue r.header r.payload r.source
    rw [stored, Client.reports_setReports, if_neg differs]
    exact before
  | @got c' outlet' goalId' size old _ known got =>
    obtain ⟨_, _, _, _, rfl⟩ := Client.get_eq got
    refine put rfl known fun self before => ?_
    have erased : ((old.setReports ((old.reports outlet').erase goalId') outlet').reports
        outlet).find? goalId = some entry := by
      rw [Client.reports_setReports]
      split
      · rename_i same
        subst same
        have differs : goalId ≠ goalId' := fun number => other ⟨self, rfl, number.symm⟩
        rw [OrderedMap.find?_erase_of_ne differs]
        exact before
      · exact before
    cases outlet <;> exact erased
  | _ => exact ⟨client, found, here⟩

theorem next_get {s : State C} {c : C} {client : Client} {outlet : Outlet} {goalId : Int32}
    {size : Nat} (inside : size ≤ maxMsgSize) (found : s.clients c = some client) :
    next s (.get c outlet goalId size) =
      (client.get outlet goalId size).map (s.putClient c) := by
  simp [next, found, inside, guard, Option.map_eq_bind]

theorem gets_iff {t : State C} {c : C} {client : Client} (found : t.clients c = some client)
    {outlet : Outlet} {goalId status : Int32} {size k : Nat} {data : Bytes}
    (inside : size ≤ maxMsgSize) :
    (∀ u, (machine C).Before (fun _ _ => True) (fun _ => Replaces c outlet goalId) t u →
      ∃ v, next u (.get c outlet goalId size) = some v ∧
        v.answers c = u.answers c ++ [⟨outlet, goalId, status, data, some k⟩]) ↔
      ∃ header, (client.reports outlet).find? goalId = some (header, some k) ∧
        header.status = status ∧ header.dataSize.toNat = size ∧ header.data.take size = data := by
  constructor
  · intro all
    obtain ⟨v, taken, answers⟩ := all t (.start rfl)
    simp only [next, found, Option.bind_eq_bind, Option.bind_some, Option.bind_eq_some_iff,
      Option.some.injEq] at taken
    obtain ⟨_, _, after, got, rfl⟩ := taken
    obtain ⟨header, source, stored, fits, rfl⟩ := Client.get_eq got
    simp only [State.answers, putClient_self, found, Option.elim_some,
      List.append_cancel_left_eq, List.cons.injEq, Answer.mk.injEq, true_and, and_true] at answers
    obtain ⟨state, bytes, rfl⟩ := answers
    exact ⟨header, stored, state, fits, bytes⟩
  · rintro ⟨header, stored, state, fits, bytes⟩ u path
    obtain ⟨client, found, here⟩ := path.kept (fun u => ∃ client, u.clients c = some client ∧
      (client.reports outlet).find? goalId = some (header, some k))
      (fun u e v before _ other taken => (next_step taken).report other before)
      ⟨client, found, stored⟩
    have got := Client.get_of_find? here fits
    have asked : next u (.get c outlet goalId size) =
        (client.get outlet goalId size).map (u.putClient c) := next_get inside found
    rw [got, Option.map_some] at asked
    refine ⟨_, asked, ?_⟩
    simp only [State.answers, putClient_self, found, Option.elim_some, state, bytes]

theorem report_arrives_iff {s : State C} (reach : (machine C).Reachable s) {c : C}
    {client : Client} (found : s.clients c = some client) {outlet : Outlet} {k : Nat}
    (reading : s.reading outlet.channel (.client c outlet) = some k) {x : Nat}
    {goalId status : Int32} {timestamp : Int64} {report : Payload}
    (meant : s.purposes k = some (.report outlet x goalId status timestamp report))
    (residue : Bytes) :
    ReportArrives s c outlet residue k goalId status report ↔
      ReportKept s k goalId status report := by
  have length : (Purpose.report (C := C) outlet x goalId status timestamp report).message.length =
      ReportHeader.fixedSize + report.bytes.length := ReportHeader.length_image _
  have blockLength := (length_block reach meant).trans length
  have unread := not_stored reach found reading
  obtain ⟨bus, finished⟩ := reading_finish reach reading meant
  have onBus : s.onBus (.finish outlet.channel (.client c outlet)) =
      some { s with bus := bus } := by
    rw [State.onBus, finished, Option.map_some]
  by_cases fits : ReportHeader.fixedSize + report.bytes.length ≤ maxMsgSize
  · obtain ⟨r, copied, source, type, size, payload⟩ :=
      reading_copied reach reading meant (length ▸ fits)
    have whole : ReportHeader.fixedSize ≤ r.header.dataSize.toNat := by
      rw [size, length]
      exact Nat.le_add_right _ _
    have reports : (client.store outlet residue r.header r.payload r.source).reports outlet =
        (client.reports outlet).insert (readReport residue r.payload).goalId
          (readReport residue r.payload, some k) := by
      rw [Client.store, if_pos ⟨type, whole⟩, Client.reports_setReports, if_pos rfl, source]
    have kept : ((readReport residue r.payload).goalId = goalId ∧
        (readReport residue r.payload).status = status ∧
        (readReport residue r.payload).dataSize.toNat = report.bytes.length ∧
        (readReport residue r.payload).data.take report.bytes.length = report.bytes) ↔
        ∃ timestamp, s.block k =
          (ReportHeader.ofReport goalId status timestamp report).image := by
      rw [payload]
      exact readReport_iff blockLength
    constructor
    · rintro ⟨t, taken, arrives⟩
      cases next_step taken with
      | bus only => cases only
      | unheard _ _ _ _ none_ =>
        rw [none_] at copied
        contradiction
      | stored _ _ _ found' _ copied' =>
        obtain rfl := Option.some.inj (found.symm.trans found')
        obtain rfl := Option.some.inj (copied.symm.trans copied')
        obtain ⟨header, stored, state, fits', bytes⟩ :=
          (gets_iff (putClient_self _ c _) report.fits).mp arrives
        rw [reports] at stored
        by_cases number : (readReport residue r.payload).goalId = goalId
        · rw [← number, OrderedMap.find?_insert_self] at stored
          obtain ⟨rfl, _⟩ := Prod.mk.inj (Option.some.inj stored)
          exact ⟨fits, payload ▸ kept.mp ⟨number, state, fits', bytes⟩⟩
        · -- under another number the message has replaced nothing
          rcases OrderedMap.mem_insert (OrderedMap.mem_of_find? stored) with new | old
          · exact absurd (congrArg Prod.fst new).symm number
          · exact absurd rfl (unread _ old)
    · intro whole
      obtain ⟨number, state, fits', bytes⟩ := kept.mpr (payload ▸ whole.block)
      refine ⟨State.putClient { s with bus := bus } c
        (client.store outlet residue r.header r.payload r.source), ?_, ?_⟩
      · simp [next, found, onBus, copied]
      · refine (gets_iff (putClient_self _ c _) report.fits).mpr ⟨_, ?_, state, fits', bytes⟩
        rw [reports, ← number, OrderedMap.find?_insert_self]
  · refine iff_of_false ?_ fun kept => fits kept.fits
    rintro ⟨t, taken, arrives⟩
    have dropped := reading_dropped reach reading meant (length ▸ fits)
    cases next_step taken with
    | bus only => cases only
    | stored _ _ _ _ _ copied =>
      rw [dropped] at copied
      contradiction
    | @unheard _ _ _ bus' =>
      have here : ({ s with bus := bus' } : State C).clients c = some client := found
      obtain ⟨header, stored, _⟩ := (gets_iff here report.fits).mp arrives
      exact unread _ (OrderedMap.mem_of_find? stored) rfl

/-- In every reachable state, of the messages that the loops have taken exactly those arrive
that are kept. -/
theorem payload_arrives_iff {s : State C} (reach : (machine C).Reachable s) :
    (s.server.phase = .receiving → ∀ k, s.reading .goal .server = some k →
      ∀ c goalId timestamp goal, s.purposes k = some (.goal c goalId timestamp goal) →
      ∀ residue, residue.length = GoalHeader.fixedSize + maxMsgSize →
        (GoalArrives s residue k goalId goal ↔ GoalKept s k goalId goal)) ∧
    (∀ c, (s.clients c).isSome → ∀ outlet k,
      s.reading outlet.channel (.client c outlet) = some k →
      ∀ x goalId status timestamp report,
        s.purposes k = some (.report outlet x goalId status timestamp report) →
      ∀ residue, ReportArrives s c outlet residue k goalId status report ↔
        ReportKept s k goalId status report) := by
  constructor
  · intro receiving k reading c goalId timestamp goal meant residue local_
    exact goal_arrives_iff reach receiving reading meant local_
  · intro c connected outlet k reading x goalId status timestamp report meant residue
    obtain ⟨client, found⟩ := Option.isSome_iff_exists.mp connected
    exact report_arrives_iff reach found reading meant residue

end

def goalTaken (goal : Payload) : List (Event Unit) :=
  [.construct, .start, .connect () 100, .sendGoal () 0 5 goal false, .copyIn 0, .enqueue 0 5,
    .poll false]

theorem payload_arrives_iff_one :
    ∃ s : State Unit, GoalArrives s (List.replicate 272 0) 0 0 (oneByte 7) := by
  obtain ⟨s, reach, facts⟩ := Machine.reachable_of_check (machine Unit) (fun _ _ => True) rfl
    (goalTaken (oneByte 7))
    (fun s => decide (s.server.phase = .receiving ∧ s.reading .goal .server = some 0 ∧
      s.purposes 0 = some (.goal () 0 5 (oneByte 7)) ∧
      s.block 0 = (GoalHeader.ofGoal 0 5 (oneByte 7)).image)) (by decide +kernel)
  obtain ⟨receiving, reading, meant, block⟩ := of_decide_eq_true facts
  have kept : GoalKept s 0 0 (oneByte 7) := ⟨by decide, 5, block⟩
  exact ⟨s, ((payload_arrives_iff reach).1 receiving 0 reading () 0 5 (oneByte 7) meant _
    List.length_replicate).mpr kept⟩

/-- 241 bytes, which `sendGoal` admits. -/
def largeGoal : Payload := ⟨List.replicate 241 7, by rw [List.length_replicate]; decide⟩

/-- Its message is one byte too long for the receive buffer. -/
theorem large_goal_dropped :
    ¬ ∀ s : State Unit, (machine Unit).Reachable s → s.server.phase = .receiving →
      ∀ k, s.reading .goal .server = some k → ∀ c goalId timestamp goal,
        s.purposes k = some (.goal c goalId timestamp goal) →
        GoalArrives s (List.replicate 272 0) k goalId goal := by
  intro claim
  obtain ⟨s, reach, facts⟩ := Machine.reachable_of_check (machine Unit) (fun _ _ => True) rfl
    (goalTaken largeGoal)
    (fun s => decide (s.server.phase = .receiving ∧ s.reading .goal .server = some 0 ∧
      s.purposes 0 = some (.goal () 0 5 largeGoal))) (by decide +kernel)
  obtain ⟨receiving, reading, meant⟩ := of_decide_eq_true facts
  have kept := (goal_arrives_iff reach receiving reading meant List.length_replicate).mp
    (claim s reach receiving 0 reading () 0 5 largeGoal meant)
  have length : largeGoal.bytes.length = 241 := List.length_replicate
  have fits := kept.fits
  rw [length] at fits
  exact absurd fits (by decide)

end ComIpc.Action
