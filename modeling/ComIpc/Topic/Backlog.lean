import ComIpc.Topic.Freshness

/-! A subscriber that is behind.

The ring has twenty slots, but a receive reads the newest of them and moves its cursor
there, so whatever else was unread is passed over. A subscriber gets every message only
as long as each of its receives finds at most one.
-/

set_option autoImplicit false

namespace ComIpc.Topic

open Semantics SystemManager

section
variable {Id : Type}

def Event.subscriber : Event Id → Option Id
  | .construct i | .destroy i | .receive i _ _ | .wake i _ _ | .finish i
  | .subscriberDies i _ => some i
  | .publishRaw _ | .publishLoaned _ | .publisherDies _ _ | .attach => none

/-- A receive of the subscriber finds at most one message that it has not received. -/
def FindsOne (i : Id) (s : State Id) : Event Id → Prop
  | .receive j _ _ | .wake j _ _ =>
    j = i → ∀ sub ∈ s.subscribers i, s.published.length ≤ sub.seen + 1
  | _ => True

structure KeepsUp (i : Id) (s : State Id) (e : Event Id) : Prop where
  whole : CompleteOrUntouched s e
  one : FindsOne i s e

instance [DecidableEq Id] (i : Id) (s : State Id) (e : Event Id) : Decidable (FindsOne i s e) :=
  match e with
  | .receive _ _ _ | .wake _ _ _ => inferInstanceAs (Decidable (_ → _))
  | .publishRaw _ | .publishLoaned _ | .publisherDies _ _ | .attach | .construct _ | .destroy _
  | .finish _ | .subscriberDies _ _ => isTrue trivial

instance [DecidableEq Id] (i : Id) (s : State Id) (e : Event Id) : Decidable (KeepsUp i s e) :=
  decidable_of_iff (CompleteOrUntouched s e ∧ FindsOne i s e)
    ⟨fun both => ⟨both.1, both.2⟩, fun keeps => ⟨keeps.whole, keeps.one⟩⟩

/-- No process dies, and no publish leaves the subscriber with more to receive than the ring
holds. -/
def WithinRing (i : Id) (s : State Id) : Event Id → Prop
  | .publishRaw _ | .publishLoaned _ =>
    ∀ sub ∈ s.subscribers i, s.published.length + 1 ≤ sub.seen + bufferSize
  | .publisherDies _ _ | .subscriberDies _ _ => False
  | _ => True

instance (i : Id) (s : State Id) (e : Event Id) : Decidable (WithinRing i s e) :=
  match e with
  | .publishRaw _ | .publishLoaned _ => inferInstanceAs (Decidable (∀ sub ∈ _, _))
  | .publisherDies _ _ | .subscriberDies _ _ => isFalse id
  | .attach | .construct _ | .destroy _ | .receive _ _ _ | .wake _ _ _ | .finish _ => isTrue trivial

/-- The messages received are those from the construction on, without a gap, and a receive
finds nothing new only when there are no others. -/
structure Gapless (s : State Id) (sub : Subscriber) : Prop where
  consecutive : sub.deliveries.map Delivery.publication =
    List.range' (sub.joined + 1) (sub.seen - sub.joined)
  numbered : ∀ d ∈ sub.deliveries, ∃ header, nth s.published d.publication = some header ∧
    d.returned = d.call.view header ∧ header.seq.toUInt32 = UInt32.ofNat d.publication
  complete : ¬ sub.lastSeq < s.shm.seq → sub.seen = s.published.length

/-- Each receive took up where the one before it had stopped. -/
structure OneByOne (sub : Subscriber) : Prop where
  consecutive : sub.deliveries.map Delivery.publication =
    List.range' (sub.joined + 1) (sub.seen - sub.joined)
  holding : ∀ call header publication, sub.phase = .holding call header publication →
    publication = sub.seen + 1

theorem OneByOne.move {s : State Id} {sub sub' : Subscriber} (tracks : Tracks s.shm s.published)
    (follows : Follows s.published sub) (one : OneByOne sub) (move : Move s sub sub')
    (behind : ∀ call, sub'.phase = .holding call s.shm.newest s.published.length →
      s.published.length ≤ sub.seen + 1) : OneByOne sub' := by
  cases move with
  | failed | blocked => exact ⟨one.consecutive, by simp⟩
  | taken call passed =>
    have later := (later_of_passed tracks follows passed).1
    have next := behind call rfl
    refine ⟨one.consecutive, ?_⟩
    intro call header publication held
    cases held
    simp only
    omega
  | @delivered call header publication held =>
    have next := one.holding call header publication held
    have joined := follows.joined_le
    refine ⟨?_, by simp⟩
    simp only [List.map_append, one.consecutive, List.map_cons, List.map_nil, next]
    rw [show sub.seen + 1 - sub.joined = sub.seen - sub.joined + 1 by omega,
      List.range'_concat, show sub.joined + 1 + 1 * (sub.seen - sub.joined) = sub.seen + 1 by omega]

end

section
variable {Id : Type} [DecidableEq Id]

/-- A step leaves the subscribers alone that it does not belong to. -/
theorem next_frame {s t : State Id} {e : Event Id} {i : Id} (taken : next s e = some t)
    (others : e.subscriber ≠ some i) : t.subscribers i = s.subscribers i := by
  have apart : ∀ {j : Id}, e.subscriber = some j → i ≠ j := by
    rintro j own rfl
    exact others own
  cases e with
  | publishRaw p | publishLoaned p | publisherDies p count | attach =>
    simp only [next, Option.bind_eq_bind, Option.bind_eq_some_iff, Option.some.injEq] at taken
    obtain ⟨_, _, rfl⟩ := taken
    rfl
  | construct j =>
    obtain ⟨_, _, _, rfl⟩ := next_construct taken
    exact Function.update_of_ne (apart rfl) _ _
  | destroy j =>
    obtain ⟨_, _, rfl⟩ := next_destroy taken
    exact Function.update_of_ne (apart rfl) _ _
  | receive j call shutdown =>
    obtain ⟨_, _, _, _, _, _, _, rfl⟩ := next_receive taken
    exact Function.update_of_ne (apart rfl) _ _
  | wake j cause shutdown =>
    obtain ⟨_, _, _, _, _, _, _, _, rfl⟩ := next_wake taken
    exact Function.update_of_ne (apart rfl) _ _
  | finish j =>
    obtain ⟨_, _, _, _, _, _, _, _, rfl⟩ := next_finish taken
    exact Function.update_of_ne (apart rfl) _ _
  | subscriberDies j holding =>
    obtain ⟨_, _, rfl⟩ := next_subscriberDies taken
    exact Function.update_of_ne (apart rfl) _ _

theorem OneByOne.step {s t : State Id} {e : Event Id} {i : Id} (consistent : Consistent s)
    (one : ∀ sub, s.subscribers i = some sub → OneByOne sub) (finds : FindsOne i s e)
    (taken : next s e = some t) : ∀ sub, t.subscribers i = some sub → OneByOne sub := by
  by_cases own : e.subscriber = some i
  · intro sub' after
    cases e with
    | publishRaw | publishLoaned | publisherDies | attach => cases own
    | construct j =>
      cases own
      obtain ⟨_, _, _, rfl⟩ := next_construct taken
      rw [put_self, Option.some.injEq] at after
      subst after
      exact ⟨by simp, by simp⟩
    | destroy j =>
      cases own
      obtain ⟨_, _, rfl⟩ := next_destroy taken
      simp at after
    | receive j call shutdown =>
      cases own
      obtain ⟨sub, phase, _, alive, _, _, entered, rfl⟩ := next_receive taken
      rw [put_self, Option.some.injEq] at after
      subst after
      exact (one sub alive).move consistent.tracks (consistent.follows i sub alive) entered.move
        fun _ _ => finds rfl sub alive
    | wake j cause shutdown =>
      cases own
      obtain ⟨sub, call, phase, _, alive, _, _, entered, rfl⟩ := next_wake taken
      rw [put_self, Option.some.injEq] at after
      subst after
      exact (one sub alive).move consistent.tracks (consistent.follows i sub alive) entered.move
        fun _ _ => finds rfl sub alive
    | finish j =>
      cases own
      obtain ⟨sub, call, header, publication, after', alive, held, done, rfl⟩ := next_finish taken
      rw [put_self, Option.some.injEq] at after
      subst after
      refine (one sub alive).move consistent.tracks (consistent.follows i sub alive)
        (finish_move held done) fun call' holds => ?_
      -- a finish never leaves a header held
      cases call with
      | loaned timeoutMs =>
        obtain rfl := Option.some.inj done
        simp at holds
      | raw size timeoutMs =>
        simp only [finish] at done
        split at done
        · split at done
          · obtain rfl := Option.some.inj done
            simp at holds
          · contradiction
        · obtain rfl := Option.some.inj done
          simp at holds
    | subscriberDies j holding =>
      cases own
      obtain ⟨_, _, rfl⟩ := next_subscriberDies taken
      simp at after
  · rw [next_frame taken own]
    exact one

theorem reachable_oneByOne {s : State Id} {i : Id}
    (reach : (machine Id).ReachableWhen (KeepsUp i) s) :
    ∀ sub, s.subscribers i = some sub → OneByOne sub := by
  refine reach.invariant_of (fun s => ∀ sub, s.subscribers i = some sub → OneByOne sub) ?_ ?_
  · rintro s rfl sub alive
    simp at alive
  · intro s e t reach one keepsUp taken
    have consistent := reachable_consistent (reach.weaken fun _ _ keeps => keeps.whole)
    exact OneByOne.step consistent one keepsUp.one taken

/-- A subscriber whose receives find at most one message each receives all of them. -/
theorem receives_without_gap {s : State Id} {i : Id}
    (reach : (machine Id).ReachableWhen (KeepsUp i) s) (few : s.published.length < 2 ^ 32)
    {sub : Subscriber} (alive : s.subscribers i = some sub) : Gapless s sub := by
  have consistent := reachable_consistent (reach.weaken fun _ _ keeps => keeps.whole)
  have follows := consistent.follows i sub alive
  refine ⟨(reachable_oneByOne reach sub alive).consecutive, ?_, ?_⟩
  · intro d member
    obtain ⟨header, found, returned⟩ := follows.exact d member
    exact ⟨header, found, returned, consistent.tracks.numbered_nth found⟩
  · intro nothing
    -- below 2^32 the residues are the numbers themselves
    have seen := follows.seen_le
    rw [follows.cursor, consistent.tracks.seq, residue_lt, Nat.mod_eq_of_lt few,
      Nat.mod_eq_of_lt (by omega)] at nothing
    omega

end

theorem receives_without_gap_two : ∃ (s : State Nat) (sub : Subscriber),
    sub.deliveries.map Delivery.publication = [1, 2] ∧ Gapless s sub := by
  obtain ⟨s, reach, twice⟩ := Machine.reachable_of_check (machine Nat) (KeepsUp 0) rfl
    [.construct 0, .publishRaw ⟨.custom, 8, 0, 1⟩, .receive 0 (.loaned 0) false, .finish 0,
      .publishRaw ⟨.custom, 8, 8, 2⟩, .receive 0 (.loaned 0) false, .finish 0]
    (fun s => decide (s.published.length < 2 ^ 32 ∧ (s.subscribers 0).map
      (fun sub => sub.deliveries.map Delivery.publication) = some [1, 2])) (by decide)
  obtain ⟨few, numbers⟩ := of_decide_eq_true twice
  obtain ⟨sub, alive, numbers⟩ := Option.map_eq_some_iff.mp numbers
  exact ⟨s, sub, numbers, receives_without_gap reach few alive⟩

/-- Two messages are published before the first is received, with eighteen slots to spare. -/
theorem second_message_only :
    ¬ ∀ s : State Nat, (machine Nat).ReachableWhen (WithinRing 0) s →
      s.published.length < 2 ^ 32 → ∀ sub, s.subscribers 0 = some sub → Gapless s sub := by
  intro claim
  obtain ⟨s, reach, skipped⟩ := Machine.reachable_of_check (machine Nat) (WithinRing 0) rfl
    [.construct 0, .publishRaw ⟨.custom, 8, 0, 1⟩, .publishRaw ⟨.custom, 8, 8, 2⟩,
      .receive 0 (.loaned 0) false, .finish 0]
    (fun s => decide (s.published.length < 2 ^ 32 ∧ (s.subscribers 0).map (fun sub =>
      (sub.joined, sub.seen, sub.deliveries.map Delivery.publication)) = some (0, 2, [2])))
    (by decide)
  obtain ⟨few, numbers⟩ := of_decide_eq_true skipped
  obtain ⟨sub, alive, numbers⟩ := Option.map_eq_some_iff.mp numbers
  simp only [Prod.mk.injEq] at numbers
  have consecutive := (claim s reach few sub alive).consecutive
  rw [numbers.1, numbers.2.1, numbers.2.2] at consecutive
  exact absurd consecutive (by decide)

end ComIpc.Topic
