import ComIpc.Action.Goals
import ComIpc.Semantics.Until

/-! Messages with any content on the topics of an action.

Two lengths describe a payload: how many bytes came, which the bus knows, and the size that
the header of the action declares. The copies into the local headers go by the first one
and stay inside. The callback and `getFeedback` or `getResult` go by the second one, and
what is then missing is whatever the local header held before.
-/

set_option autoImplicit false

namespace ComIpc.Action

open Semantics

/-- A loop looks at a message that its buffer and the fixed part of the header allow. -/
def Taken (fixedSize : Nat) (message : Bytes) : Prop :=
  fixedSize ≤ message.length ∧ message.length ≤ maxMsgSize

/-- A round of `processLoop` in which this message comes; the receive fails on one that is too
long for the buffer. -/
def goalRound (residue : Bytes) (header : MessageHeader) (message : Bytes)
    (source : Option Nat) : Goals.Event :=
  if MessageHeader.bytes + header.dataSize.toNat ≤ receiveBuffer then
    .goal residue header message source
  else .nothing

def Client.reportRound (client : Client) (outlet : Outlet) (residue : Bytes)
    (header : MessageHeader) (message : Bytes) (source : Option Nat) : Client :=
  if MessageHeader.bytes + header.dataSize.toNat ≤ receiveBuffer then
    client.store outlet residue header message source
  else client

def Pieces (message : Bytes) (before : Nat) (executions : List Execution) : Prop :=
  ∀ x ∈ executions.drop before, x.data <+: message.drop GoalHeader.fixedSize

/-- The copy stays inside the local header; and whatever the other threads do in between, the
round does not leave the array, and if it calls the callback then with a piece of the message
behind its fixed part. -/
structure GoalContained (s : Goals.State) (residue : Bytes) (header : MessageHeader)
    (message : Bytes) (source : Option Nat) : Prop where
  copied : Taken GoalHeader.fixedSize message → message.length ≤ residue.length
  handed : ∃ t, Goals.next s (goalRound residue header message source) = some t ∧
    ∀ u, Goals.machine.Before (fun _ _ => True) (fun _ e => e = .pop) t u →
      ∃ v, Goals.next u .pop = some v ∧
        Pieces message s.server.executions.length v.server.executions

/-- The copy stays inside the array. A message that is not taken leaves no trace; of one that
is taken the client hands out a piece behind the fixed part, whatever type it asks for, and
does not leave the array. -/
structure ReportContained (client : Client) (outlet : Outlet) (residue : Bytes)
    (header : MessageHeader) (message : Bytes) (source : Option Nat) : Prop where
  copied : Taken ReportHeader.fixedSize message →
    message.length - ReportHeader.fixedSize ≤ residue.length
  dropped : ¬ Taken ReportHeader.fixedSize message →
    client.reportRound outlet residue header message source = client
  handed : Taken ReportHeader.fixedSize message → ∀ size after,
    (client.reportRound outlet residue header message source).get outlet
      (readReport residue message).goalId size = some after →
    ∃ a, after.answers = client.answers ++ [a] ∧
      a.data <+: message.drop ReportHeader.fixedSize ∧ size ≤ maxMsgSize

def Declares (fixedSize : Nat) (message : Bytes) : Prop :=
  (uint32Of (message.drop (fixedSize - 4))).toNat ≤ message.length - fixedSize

instance (fixedSize : Nat) (message : Bytes) : Decidable (Declares fixedSize message) :=
  inferInstanceAs (Decidable (_ ≤ _))

theorem take_prefix_iff {payload rest : Bytes} {size : Nat}
    (long : size ≤ (payload ++ rest).length) :
    (payload ++ rest).take size <+: payload ↔ size ≤ payload.length := by
  constructor
  · intro piece
    have bound := piece.length_le
    rwa [List.length_take, Nat.min_eq_left long] at bound
  · intro bound
    rw [List.take_append_of_le_length bound]
    exact List.take_prefix size payload

/-! ### The server -/

theorem Goals.next_popping {s t : Goals.State} {e : Goals.Event} (taken : Goals.next s e = some t)
    (popping : s.server.phase = .popping) (other : e ≠ .pop) :
    t.server.phase = .popping ∧ t.server.goalQueue = s.server.goalQueue ∧
      t.server.executions = s.server.executions := by
  cases e with
  | pop => exact absurd rfl other
  | shutdown | answered =>
    obtain rfl := Option.some.inj taken
    exact ⟨popping, rfl, rfl⟩
  | cancel =>
    obtain rfl := Option.some.inj taken
    exact ⟨by simpa using popping, by simp, by simp⟩
  | construct | start | poll | nothing | goal | callbackReturns =>
    simp [Goals.next, popping, guard, failure] at taken

theorem Goals.next_pop {s : Goals.State} (popping : s.server.phase = .popping) :
    ∃ t, Goals.next s .pop = some t ∧ t.server = s.server.pop :=
  ⟨{ s with server := s.server.pop }, by simp [Goals.next, popping, guard], rfl⟩

theorem Goals.pops_iff {t : Goals.State} (popping : t.server.phase = .popping)
    (holds : List Execution → Prop) :
    (∀ u, Goals.machine.Before (fun _ _ => True) (fun _ e => e = .pop) t u →
      ∃ v, Goals.next u .pop = some v ∧ holds v.server.executions) ↔
      holds t.server.pop.executions :=
  Server.handed_iff Goals.machine Goals.State.server (fun _ => Goals.next_pop)
    (fun _ _ _ => Goals.next_popping) popping holds

theorem Goals.goalRound_pop {s : Goals.State} (receiving : s.server.phase = .receiving)
    (empty : s.server.goalQueue.entries = []) {residue message : Bytes} {header : MessageHeader}
    (custom : header.type = .custom) (size : header.dataSize.toNat = message.length)
    (source : Option Nat) (taken : Taken GoalHeader.fixedSize message) :
    (Goals.next s (goalRound residue header message source)).map
        (fun t => (t.server.phase, t.server.pop.executions)) =
      (readGoal residue message).map fun read => (.popping,
        if read.1 = -1 then s.server.executions
        else s.server.executions ++ [⟨read.1, read.2, source⟩]) := by
  have pop : (s.server.accept residue header message source).map
      (fun after => after.pop.executions) =
        (readGoal residue message).map fun read =>
          if read.1 = -1 then s.server.executions
          else s.server.executions ++ [⟨read.1, read.2, source⟩] :=
    Server.accept_pop empty custom (size ▸ taken.1) source
  have room : MessageHeader.bytes + header.dataSize.toNat ≤ receiveBuffer := by
    rw [size]
    exact Nat.add_le_add_left taken.2 _
  rw [goalRound, if_pos room]
  cases accepted : s.server.accept residue header message source with
  | none =>
    rw [accepted, Option.map_none] at pop
    have none_ : readGoal residue message = none := Option.map_eq_none_iff.mp pop.symm
    simp [Goals.next, receiving, guard, accepted, none_]
  | some server =>
    rw [accepted, Option.map_some] at pop
    obtain ⟨read, found, same⟩ := Option.map_eq_some_iff.mp pop.symm
    simp [Goals.next, receiving, guard, accepted, found, Server.accept_phase accepted, same]

theorem Goals.goalRound_dropped {s : Goals.State} (receiving : s.server.phase = .receiving)
    {residue message : Bytes} {header : MessageHeader}
    (size : header.dataSize.toNat = message.length) (source : Option Nat)
    (dropped : ¬ Taken GoalHeader.fixedSize message) : ∃ log,
      Goals.next s (goalRound residue header message source) =
        some ⟨{ s.server with phase := .popping }, log⟩ := by
  unfold goalRound
  split
  · rename_i room
    have short : ¬ GoalHeader.fixedSize ≤ header.dataSize.toNat := by
      intro whole
      rw [size] at whole room
      exact dropped ⟨whole, Nat.le_of_add_le_add_left room⟩
    simp [Goals.next, receiving, guard, Server.accept, short]
  · exact ⟨s.log, by simp [Goals.next, receiving, guard]⟩

theorem Goals.goalRound_iff {s : Goals.State} (receiving : s.server.phase = .receiving)
    (empty : s.server.goalQueue.entries = []) {residue message : Bytes} {header : MessageHeader}
    (custom : header.type = .custom) (size : header.dataSize.toNat = message.length)
    (source : Option Nat) (taken : Taken GoalHeader.fixedSize message) :
    (∃ t, Goals.next s (goalRound residue header message source) = some t ∧
      ∀ u, Goals.machine.Before (fun _ _ => True) (fun _ e => e = .pop) t u →
        ∃ v, Goals.next u .pop = some v ∧
          Pieces message s.server.executions.length v.server.executions) ↔
      ∃ read, readGoal residue message = some read ∧
        (read.1 = -1 ∨ read.2 <+: message.drop GoalHeader.fixedSize) := by
  have round : (Goals.next s (goalRound residue header message source)).map
      (fun t => (t.server.phase, t.server.pop.executions)) =
        (readGoal residue message).map fun read => (.popping,
          if read.1 = -1 then s.server.executions
          else s.server.executions ++ [⟨read.1, read.2, source⟩]) :=
    Goals.goalRound_pop receiving empty custom size source taken
  have pieces (read : Int32 × Bytes) : Pieces message s.server.executions.length
      (if read.1 = -1 then s.server.executions
        else s.server.executions ++ [⟨read.1, read.2, source⟩]) ↔
      read.1 = -1 ∨ read.2 <+: message.drop GoalHeader.fixedSize := by
    split
    · rename_i none_
      simp [Pieces, none_]
    · rename_i number
      simp [Pieces, number]
  constructor
  · rintro ⟨t, done, handed⟩
    rw [done, Option.map_some] at round
    obtain ⟨read, found, same⟩ := Option.map_eq_some_iff.mp round.symm
    obtain ⟨popping, executions⟩ := Prod.mk.inj same
    have popped := (Goals.pops_iff popping.symm _).mp handed
    exact ⟨read, found, (pieces read).mp (executions ▸ popped)⟩
  · rintro ⟨read, found, piece⟩
    rw [found, Option.map_some] at round
    obtain ⟨t, done, same⟩ := Option.map_eq_some_iff.mp round
    obtain ⟨popping, executions⟩ := Prod.mk.inj same
    exact ⟨t, done, (Goals.pops_iff popping _).mpr (executions ▸ (pieces read).mpr piece)⟩

theorem goal_contained_iff {s : Goals.State} (reach : Goals.machine.Reachable s)
    (receiving : s.server.phase = .receiving) {residue message : Bytes} {header : MessageHeader}
    (custom : header.type = .custom) (size : header.dataSize.toNat = message.length)
    (source : Option Nat) (local_ : residue.length = GoalHeader.fixedSize + maxMsgSize) :
    GoalContained s residue header message source ↔ (Taken GoalHeader.fixedSize message →
      Declares GoalHeader.fixedSize message ∨
        int32Of message = -1 ∧ (uint32Of (message.drop 12)).toNat ≤ maxMsgSize) := by
  by_cases taken : Taken GoalHeader.fixedSize message
  · have empty : s.server.goalQueue.entries = [] :=
      List.map_eq_nil_iff.mp ((Goals.reachable_drained reach).empty (by simp [receiving]))
    have inside : message.length ≤ residue.length := by
      rw [local_]
      exact Nat.le_trans taken.2 (Nat.le_add_left _ _)
    have handed : (∃ t, Goals.next s (goalRound residue header message source) = some t ∧
        ∀ u, Goals.machine.Before (fun _ _ => True) (fun _ e => e = .pop) t u →
          ∃ v, Goals.next u .pop = some v ∧
            Pieces message s.server.executions.length v.server.executions) ↔
        ∃ read, readGoal residue message = some read ∧
          (read.1 = -1 ∨ read.2 <+: message.drop GoalHeader.fixedSize) :=
      Goals.goalRound_iff receiving empty custom size source taken
    have long : (message.drop GoalHeader.fixedSize ++ residue.drop message.length).length =
        maxMsgSize := by
      have := taken.1
      simp only [List.length_append, List.length_drop, local_]
      omega
    have exact_ : GoalContained s residue header message source ↔
        ∃ read, readGoal residue message = some read ∧
          (read.1 = -1 ∨ read.2 <+: message.drop GoalHeader.fixedSize) :=
      ⟨fun contained => handed.mp contained.handed, fun read => ⟨fun _ => inside, handed.mpr read⟩⟩
    rw [exact_, readGoal_eq residue taken.1, imp_iff_right taken, Declares]
    by_cases within : (uint32Of (message.drop 12)).toNat ≤ maxMsgSize
    · have piece := take_prefix_iff (Nat.le_trans within (Nat.le_of_eq long.symm))
      rw [if_pos within]
      simp only [Option.some.injEq, exists_eq_left', piece, List.length_drop, within, and_true]
      exact or_comm
    · rw [if_neg within]
      refine iff_of_false (fun ⟨_, none_, _⟩ => nomatch none_) ?_
      rintro (declared | ⟨_, inside⟩)
      · exact within (Nat.le_trans declared (Nat.le_trans (Nat.sub_le _ _) taken.2))
      · exact within inside
  · refine iff_of_true ⟨fun whole => absurd whole taken, ?_⟩ fun whole => absurd whole taken
    have empty : s.server.goalQueue.entries = [] :=
      List.map_eq_nil_iff.mp ((Goals.reachable_drained reach).empty (by simp [receiving]))
    obtain ⟨log, done⟩ := Goals.goalRound_dropped receiving size source taken
    have nothing : ({ s.server with phase := .popping } : Server).pop.executions =
        s.server.executions := Server.pop_empty empty
    refine ⟨_, done, (Goals.pops_iff rfl (Pieces message s.server.executions.length)).mpr ?_⟩
    rw [nothing]
    simp [Pieces]

/-! ### The clients -/

theorem report_contained_iff (client : Client) (outlet : Outlet) {residue message : Bytes}
    {header : MessageHeader} (custom : header.type = .custom)
    (size : header.dataSize.toNat = message.length) (source : Option Nat)
    (array : residue.length = maxMsgSize) :
    ReportContained client outlet residue header message source ↔
      (Taken ReportHeader.fixedSize message → Declares ReportHeader.fixedSize message) := by
  by_cases taken : Taken ReportHeader.fixedSize message
  · have inside : message.length - ReportHeader.fixedSize ≤ residue.length := by
      rw [array]
      exact Nat.le_trans (Nat.sub_le _ _) taken.2
    have round : client.reportRound outlet residue header message source =
        client.setReports ((client.reports outlet).insert (readReport residue message).goalId
          (readReport residue message, source)) outlet := by
      have room : MessageHeader.bytes + header.dataSize.toNat ≤ receiveBuffer := by
        rw [size]
        exact Nat.add_le_add_left taken.2 _
      rw [Client.reportRound, if_pos room, Client.store, if_pos ⟨custom, size ▸ taken.1⟩]
    have stored : ((client.reportRound outlet residue header message source).reports outlet).find?
        (readReport residue message).goalId = some (readReport residue message, source) := by
      rw [round, Client.reports_setReports, if_pos rfl, OrderedMap.find?_insert_self]
    have data : (readReport residue message).data = message.drop ReportHeader.fixedSize ++
        residue.drop (message.length - ReportHeader.fixedSize) := by
      simp [readReport, ReportHeader.ofImage, memcpy]
    have long : (message.drop ReportHeader.fixedSize ++
        residue.drop (message.length - ReportHeader.fixedSize)).length = maxMsgSize := by
      simp only [List.length_append, List.length_drop, array] at inside ⊢
      omega
    have size_ : (readReport residue message).dataSize.toNat =
        (uint32Of (message.drop 16)).toNat := rfl
    rw [imp_iff_right taken, Declares]
    constructor
    · intro contained
      obtain ⟨a, answers, piece, within⟩ :=
        contained.handed taken _ _ (Client.get_of_find? stored size_)
      simp only [round, Client.answers_setReports, List.append_cancel_left_eq, List.cons.injEq,
        and_true] at answers
      rw [← answers, data, take_prefix_iff (Nat.le_trans within (Nat.le_of_eq long.symm)),
        List.length_drop] at piece
      exact piece
    · intro declared
      refine ⟨fun _ => inside, fun dropped => absurd taken dropped, fun _ asked after got => ?_⟩
      obtain ⟨report, source', found, fits, rfl⟩ := Client.get_eq got
      obtain ⟨rfl, rfl⟩ := Prod.mk.inj (Option.some.inj (stored.symm.trans found))
      have within : asked ≤ maxMsgSize := by
        rw [← fits, size_]
        exact Nat.le_trans declared (Nat.le_trans (Nat.sub_le _ _) taken.2)
      refine ⟨_, by rw [round, Client.answers_setReports], ?_, within⟩
      rw [data, take_prefix_iff (Nat.le_trans within (Nat.le_of_eq long.symm)), List.length_drop,
        ← fits, size_]
      exact declared
  · refine iff_of_true ⟨fun whole => absurd whole taken, fun _ => ?_,
      fun whole => absurd whole taken⟩ fun whole => absurd whole taken
    unfold Client.reportRound
    split
    · rename_i room
      have short : ¬ ReportHeader.fixedSize ≤ header.dataSize.toNat := by
        intro whole
        rw [size] at whole room
        exact taken ⟨whole, Nat.le_of_add_le_add_left room⟩
      rw [Client.store, if_neg fun both => short both.2]
    · rfl

/-- Whatever a message with type `custom` holds: the payload that is handed out is contained in
it exactly when the declared size is at most what came, or the message is dropped, or the goal
has the number -1, which is copied and never executed. -/
theorem payload_contained_iff {s : Goals.State} (reach : Goals.machine.Reachable s)
    (receiving : s.server.phase = .receiving) (client : Client) (outlet : Outlet)
    {message : Bytes} {header : MessageHeader} (custom : header.type = .custom)
    (size : header.dataSize.toNat = message.length) (source : Option Nat) {residue array : Bytes}
    (local_ : residue.length = GoalHeader.fixedSize + maxMsgSize)
    (array_ : array.length = maxMsgSize) :
    (GoalContained s residue header message source ↔ (Taken GoalHeader.fixedSize message →
      Declares GoalHeader.fixedSize message ∨
        int32Of message = -1 ∧ (uint32Of (message.drop 12)).toNat ≤ maxMsgSize)) ∧
    (ReportContained client outlet array header message source ↔
      (Taken ReportHeader.fixedSize message → Declares ReportHeader.fixedSize message)) :=
  ⟨goal_contained_iff reach receiving custom size source local_,
    report_contained_iff client outlet custom size source array_⟩

theorem reachable_receiving :
    ∃ s, Goals.machine.Reachable s ∧ s.server.phase = .receiving := by
  obtain ⟨s, reach, receiving⟩ := Machine.reachable_of_check Goals.machine (fun _ _ => True) rfl
    [.construct, .start, .poll] (fun s => decide (s.server.phase = .receiving)) (by decide)
  exact ⟨s, reach, of_decide_eq_true receiving⟩

theorem payload_contained_iff_report : ∃ s,
    GoalContained s (List.replicate 272 0) ⟨.custom, 1, 0, 21, 0⟩
      (ReportHeader.mk 0 1 0 1 [7]).image none ∧
    ReportContained .init .feedback (List.replicate 256 0) ⟨.custom, 1, 0, 21, 0⟩
      (ReportHeader.mk 0 1 0 1 [7]).image none := by
  obtain ⟨s, reach, receiving⟩ := reachable_receiving
  have size : (⟨.custom, 1, 0, 21, 0⟩ : MessageHeader).dataSize.toNat =
      (ReportHeader.mk 0 1 0 1 [7]).image.length := by decide
  have both := payload_contained_iff reach receiving .init .feedback rfl size none
    (List.length_replicate (n := 272) (a := 0)) (List.length_replicate (n := 256) (a := 0))
  exact ⟨s, both.1.mpr fun _ => .inl (by decide +kernel),
    both.2.mpr fun _ => by decide +kernel⟩

/-- A goal that declares two bytes and comes with one: the second is left over from the local
header. -/
theorem declared_size_trusted : ¬ ∀ s, Goals.machine.Reachable s →
    s.server.phase = .receiving → ∀ (message : Bytes) (header : MessageHeader),
      header.type = .custom → header.dataSize.toNat = message.length →
      GoalContained s (List.replicate 272 0) header message none := by
  intro claim
  obtain ⟨s, reach, receiving⟩ := reachable_receiving
  have contained := claim s reach receiving (GoalHeader.mk 0 0 2 [7]).image
    ⟨.custom, 1, 0, 17, 0⟩ rfl (by decide)
  have condition := (goal_contained_iff reach receiving rfl (by decide) none
    List.length_replicate).mp contained ⟨by decide, by decide⟩
  exact absurd condition (by decide +kernel)

end ComIpc.Action
