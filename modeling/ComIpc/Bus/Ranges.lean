import ComIpc.Bus.Payload
import Mathlib.Data.List.Forall2

/-! The ranges that the headers of a topic ring describe.

A raw publish gets its offset and its size from one allocation. A loaned publish gets them
from its caller, and only the beginning of the range is checked. `asked` is a ghost: what the
callers gave, call by call.
-/

set_option autoImplicit false

namespace ComIpc.Bus

open Semantics

/-- Where the payload of a publish begins in the pool, and the size its caller gave. -/
structure Ask where
  loaned : Bool
  position : Nat
  size : Nat
  deriving DecidableEq, Repr

def Ask.Fits (ask : Ask) : Prop := ask.position + ask.size ≤ poolSize

def Describing (header : MessageHeader) (ask : Ask) : Prop :=
  header.dataSize.toNat = ask.size ∧ header.poolOffset.toNat + header.dataSize.toNat ≤ poolSize

structure Logged (T K Id : Type) where
  bus : State T K Id
  asked : T → List Ask

section
variable {T K Id : Type}

def State.asks (s : State T K Id) : Event T K Id → Option (T × Ask)
  | .enqueue k _ => (s.calls k).map fun call =>
    (call.topic, ⟨false, call.offset.toNat, call.data.length⟩)
  | .publishLoaned t _ position size _ => some (t, ⟨true, position, size⟩)
  | _ => none

/-- Every header of a ring says what its publish was asked, and what a receive is about to read
or to hand out lies inside the pool. -/
structure InRange (s : Logged T K Id) : Prop where
  headers : ∀ t, List.Forall₂ Describing (s.bus.topics t).published (s.asked t)
  reads : ∀ t i sub call header publication, (s.bus.topics t).subscribers i = some sub →
    sub.phase = .holding call header publication →
    header.poolOffset.toNat + header.dataSize.toNat ≤ poolSize

theorem describing_inside {published : List MessageHeader} {asked : List Ask}
    (headers : List.Forall₂ Describing published asked) {header : MessageHeader}
    (member : header ∈ published) :
    header.poolOffset.toNat + header.dataSize.toNat ≤ poolSize := by
  obtain ⟨n, here, rfl⟩ := List.mem_iff_getElem.mp member
  exact (headers.get here (headers.length_eq ▸ here)).2

/-- The header of a publish: the beginning as it was given, the size narrowed to 32 bits. -/
structure Written (header : MessageHeader) (ask : Ask) : Prop where
  offset : header.poolOffset.toNat = ask.position
  size : header.dataSize = UInt32.ofNat ask.size

theorem Written.describing_iff {header : MessageHeader} {ask : Ask} (written : Written header ask) :
    Describing header ask ↔ ask.Fits := by
  unfold Describing Ask.Fits
  constructor
  · rintro ⟨size, inside⟩
    rwa [size, written.offset] at inside
  · intro fits
    have small : ask.size < 2 ^ 32 := Nat.lt_of_le_of_lt (Nat.le_of_add_left_le fits) (by decide)
    have size : header.dataSize.toNat = ask.size := by
      rw [written.size, UInt32.toNat_ofNat', Nat.mod_eq_of_lt small]
    exact ⟨size, by rwa [written.offset, size]⟩

structure Recorded (s : Logged T K Id) : Prop where
  written : ∀ t, List.Forall₂ Written (s.bus.topics t).published (s.asked t)
  allocated : ∀ t, ∀ ask ∈ s.asked t, ask.loaned = false → ask.Fits

theorem Recorded.quiet {s : Logged T K Id} (recorded : Recorded s) {bus : State T K Id}
    (same : ∀ t, (bus.topics t).published = (s.bus.topics t).published) :
    Recorded ⟨bus, s.asked⟩ := by
  constructor
  · intro t
    rw [same t]
    exact recorded.written t
  · exact recorded.allocated

variable [DecidableEq T]

def Logged.note (s : Logged T K Id) (bus : State T K Id) : Option (T × Ask) → Logged T K Id
  | some (t, ask) => ⟨bus, Function.update s.asked t (s.asked t ++ [ask])⟩
  | none => ⟨bus, s.asked⟩

theorem Recorded.published {s : Logged T K Id} (recorded : Recorded s) {bus : State T K Id} {t : T}
    {after : Topic.State Id} {header : MessageHeader} {ask : Ask}
    (topics : bus.topics = Function.update s.bus.topics t after)
    (appended : after.published = (s.bus.topics t).published ++ [header])
    (written : Written header ask) (allocated : ask.loaned = false → ask.Fits) :
    Recorded ⟨bus, Function.update s.asked t (s.asked t ++ [ask])⟩ := by
  constructor
  · intro other
    by_cases self : other = t
    · subst self
      simp only [topics, Function.update_self, appended]
      exact List.rel_append (recorded.written other) (.cons written .nil)
    · simp only [topics, Function.update_of_ne self]
      exact recorded.written other
  · intro other ask' member
    by_cases self : other = t
    · subst self
      simp only [Function.update_self, List.mem_append, List.mem_singleton] at member
      rcases member with old | rfl
      · exact recorded.allocated other ask' old
      · exact allocated
    · simp only [Function.update_of_ne self] at member
      exact recorded.allocated other ask' member

variable [DecidableEq Id]

theorem Recorded.inTopic {s : Logged T K Id} (recorded : Recorded s) {bus : State T K Id} {t : T}
    {e : Topic.Event Id} {after : Topic.State Id}
    (topics : bus.topics = Function.update s.bus.topics t after)
    (stepped : Topic.next (s.bus.topics t) e = some after) (quiet : Topic.Quiet e) :
    Recorded ⟨bus, s.asked⟩ := by
  refine recorded.quiet fun other => ?_
  rw [topics]
  exact update_published (Topic.next_quiet quiet stepped) other

variable [DecidableEq K]

def logged (T K Id : Type) [DecidableEq T] [DecidableEq K] [DecidableEq Id] :
    Machine (Logged T K Id) (Event T K Id) where
  initial := fun s => s = ⟨.init, fun _ => []⟩
  next := fun s e => (next s.bus e).map fun bus => s.note bus (s.bus.asks e)

theorem logged_bus {s : Logged T K Id} (reach : (logged T K Id).Reachable s) :
    (machine T K Id).Reachable s.bus := by
  refine reach.invariant (fun s => (machine T K Id).Reachable s.bus) ?_ ?_
  · rintro s rfl
    exact .start rfl
  · intro s e s' before _ taken
    obtain ⟨bus, stepped, rfl⟩ := Option.map_eq_some_iff.mp taken
    have same : (s.note bus (s.bus.asks e)).bus = bus := by
      unfold Logged.note
      split
      · rfl
      · rfl
    rw [same]
    exact .step before trivial stepped

theorem Recorded.next {s : Logged T K Id} {e : Event T K Id} {bus : State T K Id}
    (sound : Sound s.bus) (recorded : Recorded s) (taken : Bus.next s.bus e = some bus) :
    Recorded (s.note bus (s.bus.asks e)) := by
  cases e with
  | enqueue k now =>
    obtain ⟨call, after, found, _, stepped, rfl⟩ := enqueue_eq taken
    simp only [State.asks, found, Option.map_some, Logged.note]
    exact recorded.published rfl (Topic.next_publish (.inl stepped)).1 ⟨rfl, rfl⟩
      fun _ => (sound.stored k call found).inside
  | publishLoaned t type position size now =>
    obtain ⟨offset, after, got, stepped, rfl⟩ := publishLoaned_eq taken
    -- the check of the pointer is all there is: the offset is the position, the size is free
    have position : offset.toNat = position := by
      unfold MemoryPool.getOffset at got
      split at got
      · rename_i inside
        obtain rfl := Option.some.inj got
        have whole : poolSize < 2 ^ 32 := by decide
        rw [UInt32.toNat_ofNat', Nat.mod_eq_of_lt (by omega)]
      · contradiction
    exact recorded.published rfl (Topic.next_publish (.inr stepped)).1 ⟨position, rfl⟩ nofun
  | allocate =>
    obtain ⟨_, _, _, _, rfl⟩ := allocate_eq taken
    exact recorded.quiet fun _ => rfl
  | copyIn =>
    obtain ⟨_, _, _, rfl⟩ := copyIn_eq taken
    exact recorded.quiet fun _ => rfl
  | loanRaw | writeLoaned =>
    simp only [Bus.next, State.loanRaw, State.writeLoaned, Option.bind_eq_bind,
      Option.bind_eq_some_iff, Option.some.injEq] at taken
    obtain ⟨_, _, rfl⟩ := taken
    exact recorded.quiet fun _ => rfl
  | attach t | construct t | destroy t | receive t | wake t =>
    obtain ⟨after, stepped, rfl⟩ := onTopic_eq taken
    exact recorded.inTopic rfl stepped trivial
  | finish t i =>
    obtain ⟨_, after, _, stepped, rfl⟩ := finish_eq taken
    exact recorded.inTopic rfl stepped trivial

theorem reachable_recorded {s : Logged T K Id} (reach : (logged T K Id).Reachable s) :
    Recorded s := by
  refine reach.invariant_of Recorded ?_ ?_
  · rintro s rfl
    constructor
    · exact fun _ => .nil
    · exact fun _ _ member => absurd member List.not_mem_nil
  · intro s e s' before recorded _ taken
    obtain ⟨bus, stepped, rfl⟩ := Option.map_eq_some_iff.mp taken
    exact recorded.next (reachable_sound (logged_bus before)) stepped

/-- In every reachable state the headers are in range if and only if every loaned publish so far
was given a range inside the pool. -/
theorem in_range_iff {s : Logged T K Id} (reach : (logged T K Id).Reachable s) :
    InRange s ↔ ∀ t, ∀ ask ∈ s.asked t, ask.loaned = true → ask.Fits := by
  have recorded := reachable_recorded reach
  constructor
  · intro range t ask member _
    obtain ⟨n, bound, rfl⟩ := List.mem_iff_getElem.mp member
    have here : n < (s.bus.topics t).published.length := (recorded.written t).length_eq ▸ bound
    have written := (recorded.written t).get here bound
    exact written.describing_iff.mp ((range.headers t).get here bound)
  · intro loaned
    have fits : ∀ t, ∀ ask ∈ s.asked t, ask.Fits := by
      intro t ask member
      cases kind : ask.loaned with
      | false => exact recorded.allocated t ask member kind
      | true => exact loaned t ask member kind
    have headers : ∀ t, List.Forall₂ Describing (s.bus.topics t).published (s.asked t) := by
      intro t
      refine List.forall₂_iff_get.mpr ⟨(recorded.written t).length_eq, fun n here bound => ?_⟩
      exact ((recorded.written t).get here bound).describing_iff.mpr (fits t _ (List.get_mem _ _))
    refine ⟨headers, ?_⟩
    intro t i sub call header publication alive held
    -- the header in hand is one of those in the ring
    have follows := (reachable_consistent (logged_bus reach) t).follows i sub alive
    exact describing_inside (headers t)
      (Topic.nth_mem (follows.holding call header publication held).2)

end

theorem in_range_iff_last : ∃ s : Logged Bool Nat Nat,
    s.asked false = [⟨true, poolSize - 8, 8⟩] ∧ s.asked true = [] ∧ InRange s := by
  obtain ⟨s, reach, asked⟩ := Machine.reachable_of_check (logged Bool Nat Nat) (fun _ _ => True) rfl
    [.loanRaw (poolSize - 8), .loanRaw 8, .publishLoaned false .custom (poolSize - 8) 8 0]
    (fun s => decide (s.asked false = [⟨true, poolSize - 8, 8⟩] ∧ s.asked true = []))
    (by decide +kernel)
  obtain ⟨here, other⟩ := of_decide_eq_true asked
  refine ⟨s, here, other, (in_range_iff reach).mpr ?_⟩
  intro t ask member _
  cases t with
  | false =>
    rw [here, List.mem_singleton] at member
    subst member
    exact Nat.le_of_eq (by decide)
  | true => exact absurd (other ▸ member) List.not_mem_nil

/-- The same block, published with sixteen bytes. -/
theorem loaned_past_end :
    ¬ ∀ s : Logged Bool Nat Nat, (logged Bool Nat Nat).Reachable s → InRange s := by
  intro claim
  obtain ⟨s, reach, outside⟩ := Machine.reachable_of_check (logged Bool Nat Nat) (fun _ _ => True)
    rfl [.loanRaw (poolSize - 8), .loanRaw 8, .publishLoaned false .custom (poolSize - 8) 16 0]
    (fun s => (s.bus.topics false).published.any fun header =>
      decide (poolSize < header.poolOffset.toNat + header.dataSize.toNat)) (by decide +kernel)
  obtain ⟨header, member, outside⟩ := List.any_eq_true.mp outside
  have inside := describing_inside ((claim s reach).headers false) member
  exact Nat.not_lt.mpr inside (of_decide_eq_true outside)

end ComIpc.Bus
