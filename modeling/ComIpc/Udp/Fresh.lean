import ComIpc.Udp.Node
import Mathlib.Data.List.Pairwise
import Mathlib.Order.Defs.LinearOrder

/-! What a fresh subscriber accepts.

The number of the newest packet is 0 as long as nothing has been received. A packet whose own
number is 0 leaves it at that, so the subscriber goes on as if it were fresh.
-/

set_option autoImplicit false

namespace ComIpc.Udp

open Semantics

/-- The number in the envelope of a datagram that is long enough to have one. -/
def numberOf (arrived : Option Bytes) : Option UInt32 :=
  arrived.bind fun datagram =>
    if (recvfrom datagram).length < QoSHeader.bytes then none
    else some (QoSHeader.ofImage (recvfrom datagram)).seqId

namespace UDPSubscriber

def fresh (sock : Int) : UDPSubscriber := ⟨sock, 0⟩

def records (node : UDPSubscriber) (arrived : Option Bytes) : Option UInt32 :=
  if node.sock < 0 then none
  else (numberOf arrived).bind fun seqId => if node.stale seqId then none else some seqId

theorem receive_records (node : UDPSubscriber) (arrived : Option Bytes) :
    (node.receive arrived).1 =
      { node with lastValidSeq := (node.records arrived).getD node.lastValidSeq } := by
  unfold receive records numberOf
  by_cases closed : node.sock < 0
  · simp [closed]
  · cases arrived with
    | none => simp [closed]
    | some datagram =>
      by_cases short : (recvfrom datagram).length < QoSHeader.bytes
      · simp [closed, short]
      · by_cases stale : node.stale (QoSHeader.ofImage (recvfrom datagram)).seqId = true
        · simp [closed, short, stale]
        · simp [closed, short, stale]

def accepted (node : UDPSubscriber) : List (Option Bytes) → List UInt32
  | [] => []
  | arrived :: later => (node.records arrived).toList ++ (node.receive arrived).1.accepted later

def passed (last : UInt32) : List UInt32 → List UInt32
  | [] => []
  | seqId :: later =>
    if last ≠ 0 ∧ seqId ≤ last then passed last later else seqId :: passed seqId later

theorem accepted_closed {node : UDPSubscriber} (closed : node.sock < 0)
    (arrivals : List (Option Bytes)) : node.accepted arrivals = [] := by
  induction arrivals generalizing node with
  | nil => rfl
  | cons arrived later ih =>
    have nothing : node.records arrived = none := if_pos closed
    rw [accepted, nothing, receive_records]
    exact ih closed

theorem accepted_open {node : UDPSubscriber} (opened : ¬ node.sock < 0)
    (arrivals : List (Option Bytes)) :
    node.accepted arrivals = passed node.lastValidSeq (arrivals.filterMap numberOf) := by
  induction arrivals generalizing node with
  | nil => rfl
  | cons arrived later ih =>
    have recorded : node.records arrived = (numberOf arrived).bind fun seqId =>
        if node.stale seqId then none else some seqId := if_neg opened
    have still : ¬ (node.receive arrived).1.sock < 0 := receive_records node arrived ▸ opened
    rw [accepted, ih still, receive_records, recorded]
    cases number : numberOf arrived with
    | none =>
      rw [List.filterMap_cons_none number]
      rfl
    | some seqId =>
      rw [List.filterMap_cons_some number, passed]
      by_cases stale : node.lastValidSeq ≠ 0 ∧ seqId ≤ node.lastValidSeq
      · simp [UDPSubscriber.stale, stale]
      · simp only [UDPSubscriber.stale, stale, Option.bind_some, decide_false, if_neg,
          Bool.false_eq_true, not_false_eq_true, Option.getD_some, Option.toList_some,
          List.cons_append, List.nil_append]

theorem passed_rising {last : UInt32} (nonzero : last ≠ 0) (numbers : List UInt32) :
    (last :: passed last numbers).Pairwise (· < ·) := by
  induction numbers generalizing last with
  | nil => exact List.pairwise_singleton _ _
  | cons seqId later ih =>
    rw [passed]
    by_cases stale : last ≠ 0 ∧ seqId ≤ last
    · rw [if_pos stale]
      exact ih nonzero
    · rw [if_neg stale]
      have above : last < seqId := by simpa [nonzero] using stale
      have positive : seqId ≠ 0 := by
        rintro rfl
        exact UInt32.not_lt_zero above
      have rising := ih positive
      refine List.pairwise_cons.mpr ⟨?_, rising⟩
      intro next member
      rcases List.mem_cons.mp member with rfl | after
      · exact above
      · exact UInt32.lt_trans above ((List.pairwise_cons.mp rising).1 next after)

theorem passed_fresh_iff (numbers : List UInt32) :
    (passed 0 numbers).Pairwise (· < ·) ↔ ¬ [0, 0] <+: numbers := by
  have first (seqId : UInt32) (later : List UInt32) :
      passed 0 (seqId :: later) = seqId :: passed seqId later := if_neg fun both => both.1 rfl
  cases numbers with
  | nil => simp [passed]
  | cons a later =>
    rw [first]
    by_cases zero : a = 0
    · subst zero
      cases later with
      | nil => simp [passed]
      | cons b more =>
        rw [first]
        by_cases again : b = 0
        · subst again
          simp
        · have rising := passed_rising again more
          refine iff_of_true (List.pairwise_cons.mpr ⟨?_, rising⟩) (by simp [Ne.symm again])
          intro next member
          have positive : 0 < b := UInt32.pos_iff_ne_zero.mpr again
          rcases List.mem_cons.mp member with rfl | after
          · exact positive
          · exact UInt32.lt_trans positive ((List.pairwise_cons.mp rising).1 next after)
    · exact iff_of_true (passed_rising zero later) (by simp [Ne.symm zero])

/-- The accepted numbers of a fresh subscriber rise strictly, if and only if it could not open its
socket or the first two numbers that arrive are not both 0. -/
theorem accepted_rising_iff (sock : Int) (arrivals : List (Option Bytes)) :
    ((fresh sock).accepted arrivals).Pairwise (· < ·) ↔
      sock < 0 ∨ ¬ [0, 0] <+: arrivals.filterMap numberOf := by
  by_cases closed : sock < 0
  · rw [accepted_closed closed]
    exact iff_of_true .nil (.inl closed)
  · rw [accepted_open closed]
    exact (passed_fresh_iff _).trans (or_iff_right closed).symm

theorem zero_accepted_twice : ¬ ∀ (sock : Int) (arrivals : List (Option Bytes)),
    ((fresh sock).accepted arrivals).Pairwise (· < ·) := by
  intro claim
  have rising := claim 3 [some (packet ⟨0, 0, 0, 0⟩ [1]), some (packet ⟨0, 0, 0, 0⟩ [1])]
  have twice : (fresh 3).accepted [some (packet ⟨0, 0, 0, 0⟩ [1]),
      some (packet ⟨0, 0, 0, 0⟩ [1])] = [0, 0] := by decide
  rw [twice] at rising
  exact absurd rising (by decide)

end UDPSubscriber

end ComIpc.Udp
