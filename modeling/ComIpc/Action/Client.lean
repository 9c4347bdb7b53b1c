import ComIpc.Action.Messages
import ComIpc.Semantics.Machine
import ComIpc.Semantics.OrderedMap

/-! The members of an action client and what its functions do to them.

`returned`, `answers` and the sources of stored reports are ghosts.
-/

set_option autoImplicit false

namespace ComIpc.Action

open Semantics

/-- The two topics on which the server reports; `feedbackLoop` with `getFeedback` and
`resultLoop` with `getResult` treat them alike. -/
inductive Outlet where
  | feedback
  | result
  deriving DecidableEq, Repr

/-- A `getResult` or `getFeedback` that returned true. -/
structure Answer where
  outlet : Outlet
  goalId : Int32
  status : Int32
  data : Bytes
  source : Option Nat
  deriving DecidableEq, Repr

-- `pending_goals_` is left out: it is written by `sendGoal` and the loops and never read.
structure Client where
  nextGoalId : Int32
  /-- The `publishRaw` call that `sendGoal` is in. -/
  sending : Option Nat
  feedbacks : OrderedMap Int32 (ReportHeader × Option Nat)
  results : OrderedMap Int32 (ReportHeader × Option Nat)
  returned : List Int32
  answers : List Answer

namespace Client

def init : Client := ⟨0, none, .empty, .empty, [], []⟩

def reports (client : Client) : Outlet → OrderedMap Int32 (ReportHeader × Option Nat)
  | .feedback => client.feedbacks
  | .result => client.results

def setReports (client : Client) (reports : OrderedMap Int32 (ReportHeader × Option Nat)) :
    Outlet → Client
  | .feedback => { client with feedbacks := reports }
  | .result => { client with results := reports }

/-- A message that a receive loop got; others than reports are dropped. -/
def store (client : Client) (outlet : Outlet) (residue : Bytes) (header : MessageHeader)
    (message : Bytes) (source : Option Nat) : Client :=
  if header.type = .custom ∧ ReportHeader.fixedSize ≤ header.dataSize.toNat then
    let report := readReport residue message
    client.setReports ((client.reports outlet).insert report.goalId (report, source)) outlet
  else client

/-- `getResult` and `getFeedback` for a type of the given size, when they return true. -/
def get (client : Client) (outlet : Outlet) (goalId : Int32) (size : Nat) : Option Client := do
  let (report, source) ← (client.reports outlet).find? goalId
  guard (report.dataSize.toNat = size)
  let client := client.setReports ((client.reports outlet).erase goalId) outlet
  some { client with
    answers := client.answers ++ [⟨outlet, goalId, report.status, report.data.take size, source⟩] }

section
variable (client : Client) (map : OrderedMap Int32 (ReportHeader × Option Nat))
  (outlet other : Outlet)

@[simp] theorem reports_setReports : (client.setReports map outlet).reports other =
    if other = outlet then map else client.reports other := by
  cases outlet <;> cases other <;> rfl

@[simp] theorem nextGoalId_setReports :
    (client.setReports map outlet).nextGoalId = client.nextGoalId := by
  cases outlet <;> rfl

@[simp] theorem answers_setReports :
    (client.setReports map outlet).answers = client.answers := by
  cases outlet <;> rfl

@[simp] theorem returned_setReports :
    (client.setReports map outlet).returned = client.returned := by
  cases outlet <;> rfl

end

theorem store_eq (client : Client) (outlet : Outlet) (residue : Bytes) (header : MessageHeader)
    (message : Bytes) (source : Option Nat) :
    ∃ map, client.store outlet residue header message source = client.setReports map outlet := by
  unfold store
  split
  · exact ⟨_, rfl⟩
  · exact ⟨client.reports outlet, by cases outlet <;> rfl⟩

theorem get_eq {client after : Client} {outlet : Outlet} {goalId : Int32} {size : Nat}
    (got : client.get outlet goalId size = some after) : ∃ report source,
      (client.reports outlet).find? goalId = some (report, source) ∧
      report.dataSize.toNat = size ∧
      after = { client.setReports ((client.reports outlet).erase goalId) outlet with
        answers := client.answers ++
          [⟨outlet, goalId, report.status, report.data.take size, source⟩] } := by
  simp only [get, Option.bind_eq_bind, Option.bind_eq_some_iff, Option.some.injEq,
    guard_passed] at got
  obtain ⟨⟨report, source⟩, found, _, fits, rfl⟩ := got
  exact ⟨report, source, found, fits, by rw [answers_setReports]⟩

theorem get_of_find? {client : Client} {outlet : Outlet} {goalId : Int32} {size : Nat}
    {report : ReportHeader} {source : Option Nat}
    (found : (client.reports outlet).find? goalId = some (report, source))
    (fits : report.dataSize.toNat = size) : client.get outlet goalId size =
      some { client.setReports ((client.reports outlet).erase goalId) outlet with
        answers := client.answers ++
          [⟨outlet, goalId, report.status, report.data.take size, source⟩] } := by
  simp [get, found, fits, guard]

end Client

end ComIpc.Action
