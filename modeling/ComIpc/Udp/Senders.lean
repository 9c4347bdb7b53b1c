import ComIpc.Udp.InOrder

/-! Several publishers and one mark.

Every publisher counts for itself and the subscriber does not look at the sender, so
the mark that one of them leaves is held against the packets of the others.
-/

set_option autoImplicit false

namespace ComIpc.Udp.Channel

open Semantics

section
variable {P : Type}

/-- The subscriber has accepted this publication of this publisher, or a later one. -/
def Overtaken (s : State P) (d : Sent P) : Prop :=
  ∃ a ∈ s.accepted, a.sender = d.sender ∧ d.number ≤ a.number

variable [DecidableEq P]

/-- No counter wraps between what arrives and the publication accepted last, and that one is of
the same publisher or has a smaller number. -/
def OwnMark (s : State P) : Event P → Prop
  | .receive (some k) => ∀ d ∈ s.sent[k]?, ∀ last ∈ s.accepted.getLast?,
      last.number / 2 ^ 32 = d.number / 2 ^ 32 ∧
        (last.sender = d.sender ∨ last.number < d.number)
  | _ => True

instance (s : State P) (e : Event P) : Decidable (OwnMark s e) :=
  match e with
  | .receive (some k) =>
    inferInstanceAs (Decidable (∀ d ∈ s.sent[k]?, ∀ last ∈ s.accepted.getLast?,
      last.number / 2 ^ 32 = d.number / 2 ^ 32 ∧
        (last.sender = d.sender ∨ last.number < d.number)))
  | .construct _ _ _ | .publish _ _ _ _ | .receive none => isTrue trivial

/-- In a run whose arrivals all meet such a mark, each of them is dropped only if it is
overtaken. -/
theorem drops_only_overtaken {s : State P} (reach : (machine P).ReachableWhen OwnMark s)
    {k : Nat} {d : Sent P} (arrives : s.sent[k]? = some d) (own : OwnMark s (.receive (some k)))
    (drops : Drops s d) : Overtaken s d := by
  have numbered := reachable_numbered (reach.weaken fun _ _ _ => trivial)
  have stale := (numbered.drops_iff drops.opened drops.sent).mp drops
  obtain ⟨last, final, _, behind⟩ := (numbered.stale_iff d.number).mp stale
  obtain ⟨lap, own⟩ := own d arrives last final
  -- within a lap the residues are ordered as the numbers
  have ordered : d.number ≤ last.number := by omega
  have same := own.resolve_right (Nat.not_lt.mpr ordered)
  exact ⟨last, List.mem_of_getLast? final, same, ordered⟩

omit [DecidableEq P] in
/-- A single publisher meets its own mark for its first 2^32 - 1 packets. -/
theorem Numbered.ownMark [Subsingleton P] {s : State P} (numbered : Numbered s)
    (few : ∀ p, (s.published p).length < 2 ^ 32) (e : Event P) : OwnMark s e := by
  cases e with
  | construct | publish => trivial
  | receive arrival =>
    cases arrival with
    | none => trivial
    | some k =>
      intro d arrives last final
      have sent := numbered.sent_bound (List.mem_of_getElem? arrives)
      have accepted := numbered.accepted_bound (List.mem_of_getLast? final)
      have first := few d.sender
      have second := few last.sender
      exact ⟨by omega, .inl (Subsingleton.elim _ _)⟩

end

def twoPublishers : List (Event Bool) :=
  [.construct false 4 ⟨0, 9000⟩, .construct true 5 ⟨0, 9000⟩, .publish false (some [1]) 0 true,
    .publish false (some [2]) 0 true, .publish true (some [9]) 0 true]

theorem drops_only_overtaken_late : ∃ (s : State Bool) (d : Sent Bool),
    s.accepted = [⟨true, 1⟩, ⟨false, 2⟩] ∧ Drops s d ∧ Overtaken s d := by
  obtain ⟨s, reach, facts⟩ := Machine.reachable_of_check (machine Bool) OwnMark ⟨3, rfl⟩
    (twoPublishers ++ [.receive (some 2), .receive (some 1)])
    (fun s => decide (s.accepted = [⟨true, 1⟩, ⟨false, 2⟩] ∧ 0 ≤ s.subscriber.sock ∧
      OwnMark s (.receive (some 0))) && s.sent[0]?.any fun d =>
        decide ((s.subscriber.receive (some d.bytes)).2 = [])) (by decide)
  obtain ⟨state, late⟩ := Bool.and_eq_true_iff.mp facts
  obtain ⟨accepted, opened, own⟩ := of_decide_eq_true state
  obtain ⟨d, arrives, empty⟩ := (Option.any_eq_true _ _).mp late
  have drops : Drops s d :=
    ⟨List.mem_of_getElem? arrives, opened, of_decide_eq_true empty⟩
  exact ⟨s, d, accepted, drops, drops_only_overtaken reach arrives own drops⟩

theorem first_packet_suppressed :
    ¬ ∀ s : State Bool, (machine Bool).Reachable s → ∀ d, Drops s d → Overtaken s d := by
  intro claim
  obtain ⟨s, reach, facts⟩ := Machine.reachable_of_check (machine Bool) (fun _ _ => True)
    ⟨3, rfl⟩ (twoPublishers ++ [.receive (some 0), .receive (some 1)])
    (fun s => decide (0 ≤ s.subscriber.sock) && (s.accepted.all fun a => !a.sender) &&
      s.sent.any fun d => d.sender && decide ((s.subscriber.receive (some d.bytes)).2 = []))
    (by decide)
  obtain ⟨state, among⟩ := Bool.and_eq_true_iff.mp facts
  obtain ⟨opened, others⟩ := Bool.and_eq_true_iff.mp state
  obtain ⟨d, sent, found⟩ := List.any_eq_true.mp among
  obtain ⟨second, empty⟩ := Bool.and_eq_true_iff.mp found
  obtain ⟨a, accepted, same, _⟩ :=
    claim s reach d ⟨sent, of_decide_eq_true opened, of_decide_eq_true empty⟩
  have first := List.all_eq_true.mp others a accepted
  rw [same, second] at first
  contradiction

end ComIpc.Udp.Channel
