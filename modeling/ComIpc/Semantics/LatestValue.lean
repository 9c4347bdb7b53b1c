import ComIpc.Semantics.Refinement
import Mathlib.Data.List.Basic

/-! A log with readers that skip to its last entry.

This is what a topic is for. A writer appends; a reader takes the newest entry when there
is one it has not passed, and hands it on or gives it up. Entries and positions are
unbounded, and nothing is ever overwritten.
-/

set_option autoImplicit false

namespace ComIpc.Semantics

/-- A place in the log, and the later place of the entry that the reader has in hand. -/
structure Reader where
  passed : Nat
  taken : Option Nat
  later : ∀ n ∈ taken, passed < n

def Reader.at (passed : Nat) : Reader := ⟨passed, none, by simp⟩

structure LatestValue (Id M : Type) where
  log : List M
  readers : Id → Option Reader

namespace LatestValue

inductive Event (Id M : Type) where
  | append (m : M)
  | join (i : Id)
  | leave (i : Id)
  | take (i : Id)
  | drop (i : Id)
  | deliver (i : Id)

inductive Seen (Id M : Type) where
  | appended (m : M)
  | joined (i : Id)
  | left (i : Id)
  | delivered (i : Id) (m : M)
  deriving DecidableEq, Repr

variable {Id M : Type} [DecidableEq Id]

def put (s : LatestValue Id M) (i : Id) (reader : Option Reader) : LatestValue Id M :=
  { s with readers := Function.update s.readers i reader }

@[simp] theorem put_self (s : LatestValue Id M) (i : Id) (reader : Option Reader) :
    (s.put i reader).readers i = reader := Function.update_self _ _ _

theorem put_of_ne (s : LatestValue Id M) {i j : Id} (apart : j ≠ i) (reader : Option Reader) :
    (s.put i reader).readers j = s.readers j := Function.update_of_ne apart _ _

def next (s : LatestValue Id M) : Event Id M → Option (LatestValue Id M)
  | .append m => some { s with log := s.log ++ [m] }
  | .join i => some (s.put i (some (.at s.log.length)))
  | .leave i => some (s.put i none)
  | .take i => do
    let reader ← s.readers i
    if fresh : reader.passed < s.log.length then
      some (s.put i (some ⟨reader.passed, some s.log.length, fun _ same =>
        Option.some.inj same ▸ fresh⟩))
    else none
  | .drop i => do
    let reader ← s.readers i
    some (s.put i (some (.at reader.passed)))
  | .deliver i => do
    let reader ← s.readers i
    let n ← reader.taken
    some (s.put i (some (.at n)))

def machine (Id M : Type) [DecidableEq Id] : Machine (LatestValue Id M) (Event Id M) where
  initial := fun s => s = ⟨[], fun _ => none⟩
  next := next

def inHand (s : LatestValue Id M) (i : Id) : Option M := do
  let reader ← s.readers i
  let n ← reader.taken
  s.log[n - 1]?

def shows (s : LatestValue Id M) : Event Id M → LatestValue Id M → List (Seen Id M)
  | .append m, _ => [.appended m]
  | .join i, _ => [.joined i]
  | .leave i, _ => [.left i]
  | .take _, _ | .drop _, _ => []
  | .deliver i, _ => ((s.inHand i).map (Seen.delivered i)).toList

def offered (i : Id) (seen : List (Seen Id M)) : List M :=
  seen.foldl (fun list see => match see with
    | .appended m => list ++ [m]
    | .joined j => if j = i then [] else list
    | .left _ | .delivered _ _ => list) []

def received (i : Id) (seen : List (Seen Id M)) : List M :=
  seen.foldl (fun list see => match see with
    | .delivered j m => if j = i then list ++ [m] else list
    | .joined j => if j = i then [] else list
    | .appended _ | .left _ => list) []

section
variable (i : Id) (seen : List (Seen Id M))

@[simp] theorem offered_appended (m : M) :
    offered i (seen ++ [.appended m]) = offered i seen ++ [m] := by
  simp [offered]

@[simp] theorem offered_joined (j : Id) :
    offered i (seen ++ [.joined j]) = if j = i then [] else offered i seen := by
  simp [offered]

@[simp] theorem offered_left (j : Id) : offered i (seen ++ [.left j]) = offered i seen := by
  simp [offered]

@[simp] theorem offered_delivered (j : Id) (m : M) :
    offered i (seen ++ [.delivered j m]) = offered i seen := by
  simp [offered]

@[simp] theorem received_appended (m : M) :
    received i (seen ++ [.appended m]) = received i seen := by
  simp [received]

@[simp] theorem received_joined (j : Id) :
    received i (seen ++ [.joined j]) = if j = i then [] else received i seen := by
  simp [received]

@[simp] theorem received_left (j : Id) : received i (seen ++ [.left j]) = received i seen := by
  simp [received]

@[simp] theorem received_delivered (j : Id) (m : M) : received i (seen ++ [.delivered j m]) =
    if j = i then received i seen ++ [m] else received i seen := by
  simp [received]

end

/-- A reader's place in the log, between what it was offered and what it received. -/
structure Placed (log : List M) (reader : Reader) (offered received : List M) (joined : Nat) :
    Prop where
  joined_le : joined ≤ reader.passed
  passed_le : reader.passed ≤ log.length
  taken_le : ∀ n ∈ reader.taken, n ≤ log.length
  offered_eq : offered = log.drop joined
  received_sub : received.Sublist ((log.take reader.passed).drop joined)

namespace Placed

variable {log offered received : List M} {reader : Reader} {joined : Nat}

theorem sublist (placed : Placed log reader offered received joined) :
    received.Sublist offered := by
  rw [placed.offered_eq]
  exact placed.received_sub.trans ((List.take_sublist _ _).drop joined)

theorem joins (log : List M) : Placed log (.at log.length) [] [] log.length where
  joined_le := Nat.le_refl _
  passed_le := Nat.le_refl _
  taken_le := by simp [Reader.at]
  offered_eq := by simp
  received_sub := List.nil_sublist _

theorem append (placed : Placed log reader offered received joined) (m : M) :
    Placed (log ++ [m]) reader (offered ++ [m]) received joined where
  joined_le := placed.joined_le
  passed_le := by
    have := placed.passed_le
    simp only [List.length_append]
    omega
  taken_le := by
    intro n taken
    have := placed.taken_le n taken
    simp only [List.length_append]
    omega
  offered_eq := by
    rw [placed.offered_eq, List.drop_append_of_le_length
      (Nat.le_trans placed.joined_le placed.passed_le)]
  received_sub := by
    rw [List.take_append_of_le_length placed.passed_le]
    exact placed.received_sub

theorem hand (placed : Placed log reader offered received joined) {other : Reader}
    (same : other.passed = reader.passed) (bound : ∀ n ∈ other.taken, n ≤ log.length) :
    Placed log other offered received joined where
  joined_le := same ▸ placed.joined_le
  passed_le := same ▸ placed.passed_le
  taken_le := bound
  offered_eq := placed.offered_eq
  received_sub := same ▸ placed.received_sub

theorem deliver (placed : Placed log reader offered received joined) {n : Nat}
    (taken : n ∈ reader.taken) {m : M} (found : log[n - 1]? = some m) :
    Placed log (.at n) offered (received ++ [m]) joined where
  joined_le := Nat.le_trans placed.joined_le (Nat.le_of_lt (reader.later n taken))
  passed_le := placed.taken_le n taken
  taken_le := by simp [Reader.at]
  offered_eq := placed.offered_eq
  received_sub := by
    have later := reader.later n taken
    have joined_le := placed.joined_le
    have passed_le := placed.passed_le
    have bound := placed.taken_le n taken
    -- the entry in hand is the last of those up to the new place
    have last : log.take n = log.take (n - 1) ++ [m] := by
      rw [show n = n - 1 + 1 by omega, List.take_add_one, Nat.add_sub_cancel, found]
      rfl
    have before : received.Sublist ((log.take (n - 1)).drop joined) := by
      refine placed.received_sub.trans (List.Sublist.drop ?_ joined)
      exact List.take_sublist_take_left (by omega)
    rw [Reader.at, last, List.drop_append_of_le_length (by rw [List.length_take]; omega)]
    exact before.append (List.Sublist.refl [m])

end Placed

structure Orderly (s : LatestValue Id M) (seen : List (Seen Id M)) : Prop where
  placed : ∀ i reader, s.readers i = some reader →
    ∃ joined, Placed s.log reader (offered i seen) (received i seen) joined
  ordered : ∀ i, (received i seen).Sublist (offered i seen)

section
variable {s : LatestValue Id M} {seen : List (Seen Id M)}

theorem Orderly.append (orderly : Orderly s seen) (m : M) :
    Orderly { s with log := s.log ++ [m] } (seen ++ [.appended m]) where
  placed := by
    intro i reader there
    obtain ⟨joined, placed⟩ := orderly.placed i reader there
    refine ⟨joined, ?_⟩
    rw [offered_appended, received_appended]
    exact placed.append m
  ordered := by
    intro i
    rw [offered_appended, received_appended]
    exact (orderly.ordered i).trans (List.sublist_append_left _ _)

theorem Orderly.join (orderly : Orderly s seen) (i : Id) :
    Orderly (s.put i (some (.at s.log.length))) (seen ++ [.joined i]) where
  placed := by
    intro j reader there
    rw [offered_joined, received_joined]
    by_cases same : j = i
    · subst same
      rw [put_self, Option.some.injEq] at there
      subst there
      rw [if_pos rfl, if_pos rfl]
      exact ⟨_, .joins s.log⟩
    · rw [put_of_ne s same] at there
      rw [if_neg (Ne.symm same), if_neg (Ne.symm same)]
      exact orderly.placed j reader there
  ordered := by
    intro j
    rw [offered_joined, received_joined]
    split
    · exact List.Sublist.refl []
    · exact orderly.ordered j

theorem Orderly.leave (orderly : Orderly s seen) (i : Id) :
    Orderly (s.put i none) (seen ++ [.left i]) where
  placed := by
    intro j reader there
    rw [offered_left, received_left]
    by_cases same : j = i
    · rw [same, put_self] at there
      contradiction
    · rw [put_of_ne s same] at there
      exact orderly.placed j reader there
  ordered := by
    intro j
    rw [offered_left, received_left]
    exact orderly.ordered j

theorem Orderly.hand (orderly : Orderly s seen) {i : Id} {reader other : Reader}
    (there : s.readers i = some reader) (same : other.passed = reader.passed)
    (bound : ∀ n ∈ other.taken, n ≤ s.log.length) : Orderly (s.put i (some other)) seen where
  placed := by
    intro j found stays
    by_cases self : j = i
    · subst self
      rw [put_self, Option.some.injEq] at stays
      subst stays
      obtain ⟨joined, placed⟩ := orderly.placed j reader there
      exact ⟨joined, placed.hand same bound⟩
    · rw [put_of_ne s self] at stays
      exact orderly.placed j found stays
  ordered := orderly.ordered

theorem Orderly.deliver (orderly : Orderly s seen) {i : Id} {reader : Reader} {n : Nat} {m : M}
    (there : s.readers i = some reader) (taken : n ∈ reader.taken)
    (found : s.log[n - 1]? = some m) :
    Orderly (s.put i (some (.at n))) (seen ++ [.delivered i m]) := by
  obtain ⟨joined, placed⟩ := orderly.placed i reader there
  have delivered := placed.deliver taken found
  constructor
  · intro j other stays
    rw [offered_delivered, received_delivered]
    by_cases self : j = i
    · subst self
      rw [put_self, Option.some.injEq] at stays
      subst stays
      rw [if_pos rfl]
      exact ⟨joined, delivered⟩
    · rw [put_of_ne s self] at stays
      rw [if_neg (Ne.symm self)]
      exact orderly.placed j other stays
  · intro j
    rw [offered_delivered, received_delivered]
    split
    · rename_i self
      exact self ▸ delivered.sublist
    · exact orderly.ordered j

theorem next_orderly {t : LatestValue Id M} {e : Event Id M} (orderly : Orderly s seen)
    (taken : next s e = some t) : Orderly t (seen ++ shows s e t) := by
  cases e with
  | append m => exact Option.some.inj taken ▸ orderly.append m
  | join i => exact Option.some.inj taken ▸ orderly.join i
  | leave i => exact Option.some.inj taken ▸ orderly.leave i
  | take i =>
    simp only [next, Option.bind_eq_bind, Option.bind_eq_some_iff] at taken
    obtain ⟨reader, there, taken⟩ := taken
    split at taken
    · obtain rfl := Option.some.inj taken
      rw [shows, List.append_nil]
      exact orderly.hand there rfl (by simp)
    · contradiction
  | drop i =>
    simp only [next, Option.bind_eq_bind, Option.bind_eq_some_iff] at taken
    obtain ⟨reader, there, taken⟩ := taken
    obtain rfl := Option.some.inj taken
    rw [shows, List.append_nil]
    exact orderly.hand there rfl (by simp [Reader.at])
  | deliver i =>
    simp only [next, Option.bind_eq_bind, Option.bind_eq_some_iff] at taken
    obtain ⟨reader, there, n, inHand, taken⟩ := taken
    obtain rfl := Option.some.inj taken
    obtain ⟨_, placed⟩ := orderly.placed i reader there
    have later := reader.later n inHand
    have bound := placed.taken_le n inHand
    -- what is in hand is in the log
    obtain ⟨m, held⟩ : ∃ m, s.log[n - 1]? = some m :=
      ⟨_, List.getElem?_eq_getElem (by omega)⟩
    have seen_eq : shows s (.deliver i) (s.put i (some (.at n))) = [.delivered i m] := by
      simp [shows, LatestValue.inHand, there, Option.mem_def.mp inHand, held]
    rw [seen_eq]
    exact orderly.deliver there inHand held

end

/-- In every run each reader receives, in order and at most once, entries that were appended
after it joined. -/
theorem received_sublist {s : LatestValue Id M} {seen : List (Seen Id M)}
    (trace : (machine Id M).Traces (fun _ _ => True) shows s seen) (i : Id) :
    (received i seen).Sublist (offered i seen) := by
  have orderly : Orderly s seen := by
    apply trace.invariant Orderly
    · rintro s rfl
      exact ⟨by simp, fun i => List.Sublist.refl []⟩
    · intro s e t seen orderly _ taken
      exact next_orderly orderly taken
  exact orderly.ordered i

end LatestValue

end ComIpc.Semantics
