import ComIpc.Bus.Sources
import Mathlib.Data.List.NodupEquivFin

/-! What a subscriber has copied out lies behind its cursor.

So a receive never copies out the message of a call twice for the same subscriber.
-/

set_option autoImplicit false

namespace ComIpc.Topic

open Semantics

variable {Id : Type} [DecidableEq Id]

theorem Change.seen {s t : State Id} (change : Change s t) (consistent : Consistent s) {i : Id}
    {after : Subscriber} (alive : t.subscribers i = some after) :
    s.published.length ≤ after.seen ∨
      ∃ sub, s.subscribers i = some sub ∧ sub.seen ≤ after.seen := by
  cases change with
  | published => exact .inr ⟨after, alive, Nat.le_refl _⟩
  | quiet _ kept => exact .inr ⟨after, kept i after alive, Nat.le_refl _⟩
  | joined j _ _ =>
    by_cases self : i = j
    · subst self
      rw [put_self, Option.some.injEq] at alive
      exact .inl (alive ▸ Nat.le_refl _)
    · simp only [State.put, Function.update_of_ne self] at alive
      exact .inr ⟨after, alive, Nat.le_refl _⟩
  | @moved _ j sub sub' _ before move =>
    by_cases self : i = j
    · subst self
      rw [put_self, Option.some.injEq] at alive
      subst alive
      refine .inr ⟨sub, before, ?_⟩
      cases move with
      | failed | blocked | taken => exact Nat.le_refl _
      | delivered held =>
        exact Nat.le_of_lt ((consistent.follows i sub before).holding _ _ _ held).1
    · simp only [State.put, Function.update_of_ne self] at alive
      exact .inr ⟨after, alive, Nat.le_refl _⟩

theorem Change.longer {s t : State Id} (change : Change s t) :
    s.published.length ≤ t.published.length := by
  cases change with
  | published => simp
  | quiet | joined | moved => exact Nat.le_refl _

end ComIpc.Topic

namespace ComIpc.Bus

open Semantics

section
variable {T K Id : Type}

def Behind (s : State T K Id) (t : T) (i : Id) (k : K) : Prop :=
  ∃ n, s.source t n = some k ∧ n ≤ (s.topics t).published.length ∧
    ∀ sub, (s.topics t).subscribers i = some sub → n ≤ sub.seen

theorem numbered_once [DecidableEq K] {s : State T K Id} {t : T} {k : K}
    (once : (s.sources t).count (some k) ≤ 1) {n m : Nat} (first : s.source t n = some k)
    (second : s.source t m = some k) (before : n < m) : False := by
  have found (n : Nat) (known : s.source t n = some k) :
      (s.sources t)[n - 1]? = some (some k) ∧ 0 < n := by
    have found := Option.join_eq_some_iff.mp known
    have positive := (Topic.nth_bound found).1
    rw [Topic.nth, if_neg (by omega)] at found
    exact ⟨found, positive⟩
  obtain ⟨here, positive⟩ := found n first
  obtain ⟨there, _⟩ := found m second
  obtain ⟨bound, here⟩ := List.getElem?_eq_some_iff.mp here
  obtain ⟨bound', there⟩ := List.getElem?_eq_some_iff.mp there
  have twice : List.Duplicate (some k) (s.sources t) :=
    List.duplicate_iff_exists_distinct_get.mpr
      ⟨⟨n - 1, bound⟩, ⟨m - 1, bound'⟩, Nat.sub_lt_sub_right positive before,
        here.symm, there.symm⟩
  have counted := (List.duplicate_iff_sublist.mp twice).count_le (some k)
  rw [List.count_cons_self, List.count_singleton_self] at counted
  omega

variable [DecidableEq T] [DecidableEq Id]

section
variable [DecidableEq K]

theorem next_source {s s' : State T K Id} {e : Event T K Id} (taken : next s e = some s')
    {t : T} {n : Nat} {k : K} (known : s.source t n = some k) : s'.source t n = some k := by
  have found := Option.join_eq_some_iff.mp known
  cases e with
  | allocate =>
    obtain ⟨_, _, _, _, rfl⟩ := allocate_eq taken
    exact known
  | copyIn =>
    obtain ⟨_, _, _, rfl⟩ := copyIn_eq taken
    exact known
  | loanRaw | writeLoaned =>
    simp only [next, State.loanRaw, State.writeLoaned, Option.bind_eq_bind,
      Option.bind_eq_some_iff, Option.some.injEq] at taken
    obtain ⟨_, _, rfl⟩ := taken
    exact known
  | enqueue =>
    obtain ⟨_, _, _, _, _, rfl⟩ := enqueue_eq taken
    exact Option.join_eq_some_iff.mpr (Topic.nth_grows found _ _)
  | publishLoaned =>
    obtain ⟨_, _, _, _, rfl⟩ := publishLoaned_eq taken
    exact Option.join_eq_some_iff.mpr (Topic.nth_grows found _ _)
  | finish =>
    obtain ⟨_, _, _, _, rfl⟩ := finish_eq taken
    exact known
  | attach | construct | destroy | receive | wake =>
    obtain ⟨_, _, rfl⟩ := onTopic_eq taken
    exact known

theorem Behind.next {s s' : State T K Id} {e : Event T K Id}
    (consistent : ∀ t, Topic.Consistent (s.topics t)) (taken : next s e = some s') {t : T} {i : Id}
    {k : K} (behind : Behind s t i k) : Behind s' t i k := by
  obtain ⟨n, known, published, seen⟩ := behind
  refine ⟨n, next_source taken known, ?_⟩
  rcases next_topics taken with ⟨_, same⟩ | ⟨u, e', after, inside, stepped, topics⟩
  · rw [same]
    exact ⟨published, seen⟩
  · by_cases self : t = u
    · subst self
      have change := Topic.next_change
        ((inTopic_noDeath inside (s.topics t)).completeOrUntouched) stepped
      rw [topics, Function.update_self]
      refine ⟨Nat.le_trans published change.longer, fun sub alive => ?_⟩
      rcases change.seen (consistent t) alive with joined | ⟨before, here, forward⟩
      · exact Nat.le_trans published joined
      · exact Nat.le_trans (seen before here) forward
    · rw [topics, Function.update_of_ne self]
      exact ⟨published, seen⟩

end

theorem behind_finish {s s' : State T K Id} (consistent : ∀ t, Topic.Consistent (s.topics t))
    {t : T} {i : Id} (taken : s.finish t i = some s') {sub : Topic.Subscriber}
    (alive : (s.topics t).subscribers i = some sub) {r : Receipt T K Id}
    (copied : r ∈ s.copyOut t i sub.phase) {k : K} (named : r.source = some k) :
    Behind s' t i k := by
  obtain ⟨_, after, _, stepped, rfl⟩ := finish_eq taken
  obtain ⟨_, _, _, size, timeoutMs, publication, held, fits, source⟩ := mem_copyOut copied
  obtain ⟨sub', call, header, publication', final, alive', held', done, rfl⟩ :=
    Topic.next_finish stepped
  obtain rfl := Option.some.inj (alive.symm.trans alive')
  obtain ⟨rfl, rfl, rfl⟩ := Topic.Phase.holding.inj (held.symm.trans held')
  obtain ⟨_, found⟩ := ((consistent t).follows i sub alive).holding _ _ _ held
  have seen : final.seen = publication := by
    simp only [Topic.finish, if_pos fits] at done
    split at done
    · exact Option.some.inj done ▸ rfl
    · contradiction
  refine ⟨publication, source ▸ named, ?_, fun sub' now => ?_⟩
  · simpa using (Topic.nth_bound found).2
  · simp only [Function.update_self, Topic.put_self, Option.some.injEq] at now
    exact Nat.le_of_eq (now ▸ seen.symm)

theorem Behind.not_held [DecidableEq K] {s : State T K Id}
    (reach : (machine T K Id).Reachable s) {t : T} {i : Id}
    {k : K} (behind : Behind s t i k) {sub : Topic.Subscriber}
    (alive : (s.topics t).subscribers i = some sub) {call : Topic.ReceiveCall}
    {header : MessageHeader} {publication : Nat}
    (held : sub.phase = .holding call header publication) :
    s.source t publication ≠ some k := by
  intro source
  obtain ⟨n, known, _, seen⟩ := behind
  have later := (((reachable_consistent reach t).follows i sub alive).holding _ _ _ held).1
  exact numbered_once ((reachable_placed reach).once t k) known source
    (Nat.lt_of_le_of_lt (seen sub alive) later)

end

end ComIpc.Bus
