import ComIpc.Udp.Node
import Mathlib.Data.List.Pairwise

/-! The deadline of a call.

Time is counted in microseconds. The timeout belongs to the socket, so it begins anew with
every call of `recvfrom`; all other steps of a call take no time.
-/

set_option autoImplicit false

namespace ComIpc.Udp

structure Arrival where
  time : Nat
  bytes : Bytes
  deriving DecidableEq, Repr

/-- What arrives at a socket, first come first served. -/
structure Queue where
  arrivals : List Arrival
  ordered : arrivals.Pairwise fun a b => a.time ≤ b.time

structure Timeval where
  sec : Int
  usec : Int
  deriving DecidableEq, Repr

/-- The option that `call` sets. -/
def timeval (timeoutMs : Int) : Timeval := ⟨timeoutMs.tdiv 1000, timeoutMs.tmod 1000 * 1000⟩

def Timeval.micros (tv : Timeval) : Nat := (tv.sec * 1000000 + tv.usec).toNat

theorem micros_timeval {timeoutMs : Int} (positive : 0 < timeoutMs) :
    (timeval timeoutMs).micros = 1000 * timeoutMs.toNat ∧ 0 < (timeval timeoutMs).micros := by
  simp only [timeval, Timeval.micros, Int.tdiv_eq_ediv_of_nonneg (Int.le_of_lt positive),
    Int.tmod_eq_emod_of_nonneg (Int.le_of_lt positive)]
  omega

/-- How a call ends: what it returns, when the reply had arrived if it is one, and when. -/
structure Ended where
  returned : Bytes
  arrived : Option Nat
  time : Nat
  deriving DecidableEq, Repr

namespace UDPServiceClient

/-- The receive loop from a moment on, with the timeout of the socket; a timeout of zero is none,
and then a call that gets no reply does not end. -/
def awaitUntil (node : UDPServiceClient) (timeout now : Nat) : List Arrival → Option Ended
  | [] => if timeout = 0 then none else some ⟨[], none, now + timeout⟩
  | a :: later =>
    if timeout ≠ 0 ∧ now + timeout < a.time then some ⟨[], none, now + timeout⟩
    else match node.reply a.bytes with
      | some payload => some ⟨payload, some a.time, max now a.time⟩
      -- the next receive starts with the whole timeout again
      | none => node.awaitUntil timeout (max now a.time) later

def callAt (node : UDPServiceClient) (data : Option Bytes) (clock : UInt64) (accepted : Bool)
    (timeoutMs : Int) (sentAt : Nat) (queue : Queue) : Option Ended :=
  match node.request data clock accepted with
  | none => some ⟨[], none, sentAt⟩
  | some (node, _) => node.awaitUntil (timeval timeoutMs).micros sentAt queue.arrivals

/-- What the calls of `recvfrom` give, as long as the loop makes them. -/
def gives (timeout now : Nat) : List Arrival → List (Option Bytes)
  | [] => if timeout = 0 then [] else [none]
  | a :: later =>
    if timeout ≠ 0 ∧ now + timeout < a.time then [none]
    else some a.bytes :: gives timeout (max now a.time) later

theorem awaitUntil_await (node : UDPServiceClient) (timeout now : Nat) (arrivals : List Arrival) :
    (node.awaitUntil timeout now arrivals).map Ended.returned =
      (node.await (gives timeout now arrivals)).map Prod.fst := by
  induction arrivals generalizing now with
  | nil =>
    rw [awaitUntil, gives]
    by_cases unbounded : timeout = 0
    · rw [if_pos unbounded, if_pos unbounded]
      rfl
    · rw [if_neg unbounded, if_neg unbounded]
      rfl
  | cons a later ih =>
    rw [awaitUntil, gives]
    by_cases late : timeout ≠ 0 ∧ now + timeout < a.time
    · rw [if_pos late, if_pos late]
      rfl
    · rw [if_neg late, if_neg late, await]
      cases node.reply a.bytes with
      | some payload => rfl
      | none => exact ih (max now a.time)

/-- With a timeout every call ends, and what it returns has arrived by then. -/
theorem awaitUntil_ends (node : UDPServiceClient) {timeout : Nat} (positive : 0 < timeout)
    (now : Nat) (arrivals : List Arrival) :
    ∃ ended, node.awaitUntil timeout now arrivals = some ended ∧
      ∀ arrived ∈ ended.arrived, arrived ≤ ended.time := by
  induction arrivals generalizing now with
  | nil => exact ⟨_, if_neg (Nat.ne_of_gt positive), nofun⟩
  | cons a later ih =>
    rw [awaitUntil]
    split
    · exact ⟨_, rfl, nofun⟩
    · split
      · refine ⟨_, rfl, fun arrived same => ?_⟩
        exact Option.some.inj same ▸ Nat.le_max_right _ _
      · exact ih (max now a.time)

def Answers (node : UDPServiceClient) (a : Arrival) : Prop := (node.reply a.bytes).isSome = true

theorem not_answers {node : UDPServiceClient} {a : Arrival} (other : node.reply a.bytes = none) :
    ¬ node.Answers a := by
  simp [Answers, other]

section
variable {node : UDPServiceClient} {timeout deadline now : Nat} {arrivals : List Arrival}
  {ended : Ended}

theorem awaitUntil_answered (ordered : arrivals.Pairwise fun a b => a.time ≤ b.time)
    (early : now ≤ deadline) (bound : deadline ≤ now + timeout)
    (answered : ∃ a ∈ arrivals, node.Answers a ∧ a.time ≤ deadline)
    (ends : node.awaitUntil timeout now arrivals = some ended) : ended.time ≤ deadline := by
  induction arrivals generalizing now with
  | nil =>
    obtain ⟨a, member, _⟩ := answered
    exact absurd member List.not_mem_nil
  | cons first later ih =>
    obtain ⟨a, member, answers, inTime⟩ := answered
    obtain ⟨before, ordered⟩ := List.pairwise_cons.mp ordered
    have firstInTime : first.time ≤ deadline := by
      rcases List.mem_cons.mp member with rfl | after
      · exact inTime
      · exact Nat.le_trans (before a after) inTime
    rw [awaitUntil, if_neg (by omega)] at ends
    cases answer : node.reply first.bytes with
    | some payload =>
      rw [answer] at ends
      exact Option.some.inj ends ▸ Nat.max_le.mpr ⟨early, firstInTime⟩
    | none =>
      rw [answer] at ends
      refine ih ordered (Nat.max_le.mpr ⟨early, firstInTime⟩) (by omega) ?_ ends
      rcases List.mem_cons.mp member with rfl | after
      · exact absurd answers (not_answers answer)
      · exact ⟨a, after, answers, inTime⟩

theorem awaitUntil_quiet (positive : 0 < timeout)
    (quiet : ∀ a ∈ arrivals, ¬ (now < a.time ∧ a.time ≤ now + timeout))
    (ends : node.awaitUntil timeout now arrivals = some ended) : ended.time ≤ now + timeout := by
  induction arrivals with
  | nil =>
    rw [awaitUntil] at ends
    split at ends
    · contradiction
    · exact Option.some.inj ends ▸ Nat.le_refl _
  | cons first later ih =>
    rw [awaitUntil] at ends
    split at ends
    · exact Option.some.inj ends ▸ Nat.le_refl _
    · have first_ := quiet first List.mem_cons_self
      have there : max now first.time = now := by omega
      rw [there] at ends
      split at ends
      · exact Option.some.inj ends ▸ Nat.le_add_right _ _
      · exact ih (fun a member => quiet a (List.mem_cons_of_mem _ member)) ends

/-- Once the loop has waited for anything, only a reply in time can end it in time. -/
theorem awaitUntil_late (late : deadline < now + timeout)
    (unanswered : ∀ a ∈ arrivals, node.Answers a → deadline < a.time)
    (ends : node.awaitUntil timeout now arrivals = some ended) : deadline < ended.time := by
  induction arrivals generalizing now with
  | nil =>
    rw [awaitUntil] at ends
    split at ends
    · contradiction
    · exact Option.some.inj ends ▸ late
  | cons first later ih =>
    rw [awaitUntil] at ends
    split at ends
    · exact Option.some.inj ends ▸ late
    · split at ends
      · rename_i payload answer
        have answers : node.Answers first := by simp [Answers, answer]
        have after := unanswered first List.mem_cons_self answers
        exact Option.some.inj ends ▸ Nat.lt_of_lt_of_le after (Nat.le_max_right _ _)
      · exact ih (by omega) (fun a member => unanswered a (List.mem_cons_of_mem _ member)) ends

theorem awaitUntil_disturbed (ordered : arrivals.Pairwise fun a b => a.time ≤ b.time)
    (unanswered : ∀ a ∈ arrivals, node.Answers a → now + timeout < a.time)
    (disturbed : ∃ a ∈ arrivals, now < a.time ∧ a.time ≤ now + timeout)
    (ends : node.awaitUntil timeout now arrivals = some ended) : now + timeout < ended.time := by
  induction arrivals with
  | nil =>
    obtain ⟨a, member, _⟩ := disturbed
    exact absurd member List.not_mem_nil
  | cons first later ih =>
    obtain ⟨a, member, waits, inTime⟩ := disturbed
    obtain ⟨before, ordered⟩ := List.pairwise_cons.mp ordered
    have firstInTime : first.time ≤ now + timeout := by
      rcases List.mem_cons.mp member with rfl | after
      · exact inTime
      · exact Nat.le_trans (before a after) inTime
    rw [awaitUntil, if_neg (by omega)] at ends
    have rest : ∀ a ∈ later, node.Answers a → now + timeout < a.time :=
      fun a member => unanswered a (List.mem_cons_of_mem _ member)
    cases answer : node.reply first.bytes with
    | some payload =>
      have answers : node.Answers first := by simp [Answers, answer]
      exact absurd (unanswered first List.mem_cons_self answers) (Nat.not_lt.mpr firstInTime)
    | none =>
      rw [answer] at ends
      by_cases waited : now < first.time
      · exact awaitUntil_late (by omega) rest ends
      · -- the first one was there already, so the receive for it took no time
        rw [Nat.max_eq_left (Nat.le_of_not_lt waited)] at ends
        refine ih ordered rest ?_ ends
        rcases List.mem_cons.mp member with rfl | after
        · exact absurd waits waited
        · exact ⟨a, after, waits, inTime⟩

end

structure KeepsDeadline (sentAt : Nat) (timeoutMs : Int) (ended : Ended) : Prop where
  reply : ∀ arrived ∈ ended.arrived, arrived ≤ sentAt + 1000 * timeoutMs.toNat
  returned : ended.time ≤ sentAt + 1000 * timeoutMs.toNat

/-- For every queue and every positive timeout: the call keeps its deadline if and only if it is
refused, or its reply arrives by the deadline, or no datagram at all arrives between the request
and the deadline. -/
theorem keeps_deadline_iff (node : UDPServiceClient) (data : Option Bytes) (clock : UInt64)
    (accepted : Bool) {timeoutMs : Int} (positive : 0 < timeoutMs) (sentAt : Nat) (queue : Queue) :
    (∃ ended, node.callAt data clock accepted timeoutMs sentAt queue = some ended ∧
      KeepsDeadline sentAt timeoutMs ended) ↔
    ∀ after sent, node.request data clock accepted = some (after, sent) →
      (∃ a ∈ queue.arrivals, after.Answers a ∧ a.time ≤ sentAt + 1000 * timeoutMs.toNat) ∨
      ∀ a ∈ queue.arrivals, ¬ (sentAt < a.time ∧ a.time ≤ sentAt + 1000 * timeoutMs.toNat) := by
  obtain ⟨micros, some_⟩ := micros_timeval positive
  rw [← micros]
  unfold callAt
  cases requested : node.request data clock accepted with
  | none =>
    refine iff_of_true ⟨_, rfl, nofun, Nat.le_add_right _ _⟩ nofun
  | some sent =>
    obtain ⟨after, out⟩ := sent
    obtain ⟨ended, ends, arrived⟩ := after.awaitUntil_ends some_ sentAt queue.arrivals
    constructor
    · rintro ⟨ended', ends', keeps⟩ _ _ same
      obtain ⟨rfl, rfl⟩ := Prod.mk.inj (Option.some.inj same)
      by_contra neither
      simp only [not_or, not_exists, not_and, not_forall, not_not] at neither
      obtain ⟨unanswered, a, member, waits, inTime⟩ := neither
      have missed := awaitUntil_disturbed queue.ordered
        (fun a member answers => Nat.lt_of_not_le (unanswered a member answers))
        ⟨a, member, waits, inTime⟩ ends'
      have inBounds := keeps.returned
      omega
    · intro condition
      have kept : ended.time ≤ sentAt + (timeval timeoutMs).micros := by
        rcases condition after out rfl with answered | quiet
        · exact awaitUntil_answered queue.ordered (Nat.le_add_right _ _) (Nat.le_refl _) answered
            ends
        · exact awaitUntil_quiet some_ quiet ends
      refine ⟨ended, ends, fun time here => ?_, ?_⟩
      · exact micros ▸ Nat.le_trans (arrived time here) kept
      · exact micros ▸ kept

end UDPServiceClient

def asking : UDPServiceClient := ⟨3, ⟨1, 9000⟩, 0⟩

/-- A stray datagram after half of the timeout, and the reply half a timeout too late. -/
def strayThenReply : Queue :=
  ⟨[⟨500, [9]⟩, ⟨1500, packet ⟨1, 0, 0x02, 0⟩ [7]⟩], by decide⟩

theorem keeps_deadline_iff_reply :
    ∃ ended, asking.callAt (some [5]) 0 true 2 0 strayThenReply = some ended ∧
      UDPServiceClient.KeepsDeadline 0 2 ended := by
  refine (UDPServiceClient.keeps_deadline_iff asking (some [5]) 0 true
    (show (0 : Int) < 2 by decide)
    0 strayThenReply).mpr ?_
  intro after sent requested
  obtain rfl := ((UDPServiceClient.request_sent requested).1)
  exact .inl ⟨⟨1500, packet ⟨1, 0, 0x02, 0⟩ [7]⟩, by decide, rfl, by decide⟩

theorem late_reply_returned :
    ¬ ∀ (node : UDPServiceClient) (data : Option Bytes) (clock : UInt64) (accepted : Bool)
      (timeoutMs : Int), 0 < timeoutMs → ∀ (sentAt : Nat) (queue : Queue),
        ∃ ended, node.callAt data clock accepted timeoutMs sentAt queue = some ended ∧
          UDPServiceClient.KeepsDeadline sentAt timeoutMs ended := by
  intro claim
  obtain ⟨ended, ends, keeps⟩ := claim asking (some [5]) 0 true 1 (by decide) 0 strayThenReply
  have late : asking.callAt (some [5]) 0 true 1 0 strayThenReply = some ⟨[7], some 1500, 1500⟩ := by
    decide
  obtain rfl := Option.some.inj (late.symm.trans ends)
  exact absurd keeps.returned (by decide)

end ComIpc.Udp
