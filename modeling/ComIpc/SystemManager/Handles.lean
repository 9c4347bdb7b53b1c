import ComIpc.SystemManager.Exclusion
import ComIpc.SystemManager.Lookups
import ComIpc.SystemManager.Stability

/-! The handles that the calls of all processes return.

Mutual exclusion makes the steps of a creator those of a single process; the other calls rely
only on entries and initialised objects, which stay.
-/

set_option autoImplicit false

namespace ComIpc.SystemManager.Steps

open Semantics

def Pc.opens : Pc → Option Access
  | .opening c => some c
  | _ => none

def Pc.enters : Pc → Option (Access × Fin maxTopics)
  | .activating c _ idx => some (c, idx)
  | _ => none

section
variable {P : Type} [DecidableEq P]

/-- No object is opened while a replacement of it is unfinished, be it under way, failed or
abandoned. An entry with a name that was cut is made only if no object that is not initialised is
under the rest of the name. -/
def Settled (s : State P) : Event P → Prop
  | .step p _ => (∀ c ∈ (s.pcs p).opens, s.shared.replacing c.path = false) ∧
    ∀ entry ∈ (s.pcs p).enters, nameSize ≤ entry.1.name.bytes.length →
      s.shared.Clear entry.1.kind (storedName ((s.shared.tables entry.1.kind).slots entry.2))
  | .call _ _ | .dies _ => True

instance (s : State P) (e : Event P) : Decidable (Settled s e) :=
  match e with
  | .step p _ => inferInstanceAs (Decidable ((∀ c ∈ (s.pcs p).opens, _) ∧
      ∀ entry ∈ (s.pcs p).enters, _ → Shared.Clear _ _ _))
  | .call _ _ | .dies _ => isTrue trivial

structure Orderly (s : State P) : Prop where
  good : Good s.shared
  knows : ∀ p, Knows s.shared (s.pcs p)
  alone : ∀ p q, (s.pcs p).holding = true → (s.pcs q).holding = true → p = q
  held : ∀ p, (s.pcs p).holding = true → s.mutex = .held
  returned : ∀ r ∈ s.returned, s.shared.Initialised r.1.kind r.2

theorem Orderly.goto {s : State P} (orderly : Orderly s) {p : P} {pc : Pc} {mutex : RobustMutex}
    {returned : List (Access × Nat)}
    (exclusive : Exclusive (State.goto ⟨mutex, s.shared, s.pcs, returned⟩ p pc))
    (knows : Knows s.shared pc)
    (initialised : ∀ r ∈ returned, s.shared.Initialised r.1.kind r.2) :
    Orderly (State.goto ⟨mutex, s.shared, s.pcs, returned⟩ p pc) where
  good := orderly.good
  knows := by
    intro q
    by_cases same : q = p
    · subst same
      simpa [State.goto] using knows
    · simpa [State.goto, same] using orderly.knows q
  alone := exclusive.alone
  held := exclusive.held
  returned := initialised

theorem Orderly.advance {s : State P} (orderly : Orderly s) {p : P} {shared : Shared} {pc : Pc}
    (exclusive : Exclusive ({ s with shared := shared }.goto p pc))
    (advances : Advances s.shared shared (s.pcs p) pc) :
    Orderly ({ s with shared := shared }.goto p pc) where
  good := advances.good
  knows := by
    intro q
    by_cases same : q = p
    · subst same
      simpa [State.goto] using advances.knows
    · have knows : Knows shared (s.pcs q) := by
        cases inside : (s.pcs p).holding with
        | false => exact advances.outside inside ▸ orderly.knows q
        | true =>
          -- the others are not inside, and rely on what stays only
          refine (orderly.knows q).later advances.later (Bool.eq_false_iff.mpr fun also => ?_)
          exact same (orderly.alone q p also inside)
      simpa [State.goto, same] using knows
  alone := exclusive.alone
  held := exclusive.held
  returned := fun r member => advances.later.initialised _ _ (orderly.returned r member)

theorem Orderly.step {s t : State P} (orderly : Orderly s) (exclusive : Exclusive t)
    {e : Event P} (settled : Settled s e) (step : Step s e t) : Orderly t := by
  cases step with
  | called idle => exact orderly.goto exclusive trivial orderly.returned
  | @locked p c fails here usable =>
    have knows := orderly.knows p
    rw [here] at knows
    exact orderly.goto exclusive knows orderly.returned
  | @released p c fails here =>
    have knows := orderly.knows p
    rw [here] at knows
    exact orderly.goto exclusive knows orderly.returned
  | @left p c result fails here =>
    have knows := orderly.knows p
    rw [here] at knows
    exact orderly.goto exclusive knows orderly.returned
  | @returned p c result fails here =>
    have knows := orderly.knows p
    rw [here] at knows
    refine orderly.goto exclusive trivial ?_
    intro r member
    rcases List.mem_append.mp member with old | new
    · exact orderly.returned r old
    · obtain ⟨obj, found, rfl⟩ := Option.map_eq_some_iff.mp (Option.mem_toList.mp new)
      exact knows obj found
  | @moved p fails shared pc moves =>
    refine orderly.advance exclusive (moves.advances orderly.good (orderly.knows p) ?_ ?_)
    · intro c here
      exact settled.1 c (by rw [here]; rfl)
    · intro c obj idx here
      exact settled.2 (c, idx) (by rw [here]; rfl)
  | died => exact orderly.goto exclusive trivial orderly.returned

theorem orderly_initial {s : State P} (initial : (calls P).initial s) : Orderly s := by
  have exclusive := exclusive_initial initial
  obtain ⟨_, tables, _, _, pcs, returned⟩ := initial
  refine ⟨⟨?_, ?_, ?_⟩, ?_, exclusive.alone, exclusive.held, ?_⟩
  · intro kind i
    rw [tables]
    exact (by decide : (cstr TopicInfo.zero.name).length < nameSize)
  · intro kind i _
    rw [tables]
    rfl
  · intro kind name obj registered
    rw [Shared.Registered, tables] at registered
    obtain ⟨i, used, _⟩ := registered
    exact absurd used (Nat.not_lt_zero _)
  · intro p
    rw [pcs]
    trivial
  · intro r member
    rw [returned] at member
    exact absurd member List.not_mem_nil

/-- Whatever fails and whoever dies, every handle that was returned refers to an initialised
object, if no object is opened while a replacement of it is unfinished. -/
theorem returned_initialised {s : State P} (reach : (calls P).ReachableWhen Settled s) :
    ∀ r ∈ s.returned, s.shared.Initialised r.1.kind r.2 := by
  have orderly : Orderly s := by
    refine reach.invariant_of Orderly (fun s => orderly_initial) ?_
    intro s e t before orderly settled taken
    have after := (before.weaken fun _ _ _ => trivial).step trivial taken
    exact orderly.step (reachable_exclusive after) settled (next_step taken)
  exact orderly.returned

end

def fresh : State (Fin 2) :=
  ⟨.unlocked, ⟨fun _ => .init, .empty, fun _ => .empty, fun _ => false⟩, fun _ => .idle, []⟩

theorem fresh_initial : (calls (Fin 2)).initial fresh :=
  ⟨rfl, rfl, fun _ _ => rfl, rfl, rfl, rfl⟩

def server : Access := ⟨.service, plain, true⟩

def client : Access := ⟨.service, plain, false⟩

def undisturbed (p : Fin 2) (c : Access) (steps : Nat) : List (Event (Fin 2)) :=
  .call p c :: List.replicate steps (.step p false)

def overlong : Access := ⟨.topic, longName, true⟩

theorem returned_initialised_restarted : ∃ s : State (Fin 2),
    s.returned = [(server, 0), (client, 0), (server, 1), (client, 1), (overlong, 2)] ∧
      ∀ r ∈ s.returned, s.shared.Initialised r.1.kind r.2 := by
  obtain ⟨s, reach, returned⟩ := Machine.reachable_of_check (calls (Fin 2)) Settled fresh_initial
    (undisturbed 0 server 15 ++ undisturbed 1 client 6 ++ [.dies 0] ++
      undisturbed 0 server 13 ++ undisturbed 1 client 6 ++ undisturbed 1 overlong 15)
    (fun s => decide (s.returned =
      [(server, 0), (client, 0), (server, 1), (client, 1), (overlong, 2)])) (by decide +kernel)
  exact ⟨s, of_decide_eq_true returned, returned_initialised reach⟩

/-- The client has found the entry; before it opens the object, the server is started again and
has come as far as creating a new one. -/
theorem empty_object_returned :
    ¬ ∀ s : State (Fin 2), (calls (Fin 2)).Reachable s →
      ∀ r ∈ s.returned, s.shared.Initialised r.1.kind r.2 := by
  intro claim
  obtain ⟨s, reach, scene⟩ := Machine.reachable_of_check (calls (Fin 2)) (fun _ _ => True)
    fresh_initial
    (undisturbed 0 server 15 ++ undisturbed 1 client 3 ++ [.dies 0] ++ undisturbed 0 server 4 ++
      [.step 1 false, .step 1 false, .step 1 false])
    (fun s => decide ((client, 1) ∈ s.returned ∧ s.shared.objects 1 = .empty)) (by decide +kernel)
  obtain ⟨member, empty⟩ := of_decide_eq_true scene
  have sized := (claim s reach (client, 1) member).1
  rw [empty] at sized
  exact absurd sized (by decide)

end ComIpc.SystemManager.Steps
