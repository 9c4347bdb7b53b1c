import ComIpc.Udp.Channel
import Mathlib.Data.List.Pairwise

/-! One publisher and its subscriber, below the wrap of the counter.

The residues are then the numbers themselves, so the mark of the subscriber is the
largest number it has accepted.
-/

set_option autoImplicit false

namespace ComIpc.Udp.Channel

open Semantics

/-- What is promised of the strings that were returned and of the datagrams that are
dropped. -/
structure InOrder (s : State Unit) : Prop where
  rising : (s.accepted.map Accepted.number).Pairwise (· < ·)
  returned : s.returned.map some =
    s.accepted.map fun a => Topic.nth (s.published ()) a.number
  dropped : ∀ d, Drops s d → ∃ a ∈ s.accepted, d.number ≤ a.number

theorem Numbered.accepted_bound {P : Type} {s : State P} (numbered : Numbered s)
    {a : Accepted P} (among : a ∈ s.accepted) :
    0 < a.number ∧ a.number ≤ (s.published a.sender).length := by
  have known : Topic.nth (s.published a.sender) a.number ∈ s.returned.map some :=
    numbered.returned ▸ List.mem_map_of_mem among
  obtain ⟨payload, _, found⟩ := List.mem_map.mp known
  exact Topic.nth_bound found.symm

theorem Numbered.sent_bound {P : Type} {s : State P} (numbered : Numbered s) {d : Sent P}
    (among : d ∈ s.sent) : 0 < d.number ∧ d.number ≤ (s.published d.sender).length := by
  obtain ⟨payload, now, found, _⟩ := (numbered.carries d among).packet
  exact Topic.nth_bound found

/-- Below the wrap the test compares the numbers. -/
theorem Numbered.stale_number {s : State Unit} (numbered : Numbered s)
    (few : (s.published ()).length < 2 ^ 32) {d : Sent Unit} (among : d ∈ s.sent) :
    s.subscriber.stale (UInt32.ofNat d.number) = true ↔
      ∃ last ∈ s.accepted.getLast?, d.number ≤ last.number := by
  rw [numbered.stale_iff]
  refine exists_congr fun last => and_congr_right fun final => ?_
  obtain ⟨positive, counted⟩ := numbered.accepted_bound (List.mem_of_getLast? final)
  have bound := (numbered.sent_bound among).2
  rw [Nat.mod_eq_of_lt (Nat.lt_of_le_of_lt counted few),
    Nat.mod_eq_of_lt (Nat.lt_of_le_of_lt bound few)]
  omega

theorem rising_concat {accepted : List (Accepted Unit)} {number : Nat}
    (rising : (accepted.map Accepted.number).Pairwise (· < ·))
    (above : ∀ last ∈ accepted.getLast?, last.number < number) :
    ((accepted ++ [Accepted.mk () number]).map Accepted.number).Pairwise (· < ·) := by
  rcases List.eq_nil_or_concat accepted with rfl | ⟨before, last, rfl⟩
  · simp
  · have top : last.number < number := above last (by simp)
    rw [List.map_append, List.pairwise_append]
    refine ⟨rising, List.pairwise_singleton _ _, fun n among m same => ?_⟩
    rw [List.mem_singleton.mp same]
    simp only [List.concat_eq_append, List.map_append, List.pairwise_append] at rising among
    rcases List.mem_append.mp among with old | final
    · exact Nat.lt_trans (rising.2.2 n old last.number (by simp)) top
    · rwa [List.mem_singleton.mp final]

theorem reachable_rising {s : State Unit} (reach : (machine Unit).Reachable s)
    (few : (s.published ()).length < 2 ^ 32) :
    (s.accepted.map Accepted.number).Pairwise (· < ·) := by
  refine reach.invariant_of (fun s => (s.published ()).length < 2 ^ 32 →
    (s.accepted.map Accepted.number).Pairwise (· < ·)) ?_ ?_ few
  · rintro _ ⟨sock, rfl⟩ _
    exact .nil
  · intro s e t reach before _ taken few
    have numbered := reachable_numbered reach
    have step := next_step taken
    have fewer := Nat.lt_of_le_of_lt (step.numbers ()).length_le few
    have rising := before fewer
    rcases step.accepts numbered with same | ⟨d, among, fresh, accepted⟩
    · rwa [same]
    · rw [accepted]
      refine rising_concat rising fun last final => ?_
      by_contra behind
      exact fresh ((numbered.stale_number fewer among).mpr ⟨last, final, Nat.not_lt.mp behind⟩)

/-- Whatever the network does, what is returned are publications in their order, and only
what has been overtaken is dropped. -/
theorem returns_in_order {s : State Unit} (reach : (machine Unit).Reachable s)
    (few : (s.published ()).length < 2 ^ 32) : InOrder s := by
  have numbered := reachable_numbered reach
  constructor
  case rising => exact reachable_rising reach few
  case returned => exact numbered.returned
  case dropped =>
    intro d dropped
    have stale := (numbered.drops_iff dropped.opened dropped.sent).mp dropped
    obtain ⟨last, final, behind⟩ := (numbered.stale_number few dropped.sent).mp stale
    exact ⟨last, List.mem_of_getLast? final, behind⟩

theorem returns_in_order_overtaken :
    ∃ s : State Unit, s.returned = [[2]] ∧ (s.published ()).length = 2 ∧ InOrder s := by
  obtain ⟨s, reach, facts⟩ := Machine.reachable_of_check (machine Unit) (fun _ _ => True)
    ⟨3, rfl⟩ [.construct () 4 ⟨0, 9000⟩, .publish () (some [1]) 0 true,
      .publish () (some [2]) 0 true, .receive (some 1), .receive (some 1), .receive (some 0)]
    (fun s => decide (s.returned = [[2]] ∧ (s.published ()).length = 2)) (by decide)
  obtain ⟨returned, length⟩ := of_decide_eq_true facts
  exact ⟨s, returned, length, returns_in_order reach (by rw [length]; decide)⟩

end ComIpc.Udp.Channel
