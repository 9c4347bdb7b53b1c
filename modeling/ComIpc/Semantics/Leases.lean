import Mathlib.Data.Finset.Card
import Mathlib.Data.Fintype.Card
import Mathlib.Logic.Function.Basic

/-! Slots that are let to holders and taken back.

A holder keeps the number of its slot to itself, and the table knows only which slots are
taken. Free slots alone are let, and a holder gives back its own: then no two holders ever
have the same slot, however often it was used before.
-/

set_option autoImplicit false

namespace ComIpc.Semantics

variable {Holder Slot : Type}

/-- Every holder's slot is taken, and nobody else holds it. -/
structure Leases (slots : Holder → Option Slot) (taken : Finset Slot) : Prop where
  taken : ∀ h i, slots h = some i → i ∈ taken
  alone : ∀ h k i, slots h = some i → slots k = some i → h = k

namespace Leases

theorem nobody (taken : Finset Slot) : Leases (fun _ : Holder => none) taken := ⟨nofun, nofun⟩

theorem apart {slots : Holder → Option Slot} {taken : Finset Slot} (leases : Leases slots taken)
    {h k : Holder} {i j : Slot} (held : slots h = some i) (other : slots k = some j)
    (different : k ≠ h) : j ≠ i := by
  rintro rfl
  exact different (leases.alone k h j other held)

variable [DecidableEq Holder]

theorem of_update {slots : Holder → Option Slot} {h k : Holder} {slot : Option Slot} {i : Slot}
    (held : Function.update slots h slot k = some i) :
    k = h ∧ slot = some i ∨ k ≠ h ∧ slots k = some i := by
  by_cases same : k = h
  · rw [same, Function.update_self] at held
    exact .inl ⟨same, held⟩
  · rw [Function.update_of_ne same] at held
    exact .inr ⟨same, held⟩

theorem held_of_none {slots : Holder → Option Slot} {h k : Holder} {i : Slot}
    (held : Function.update slots h none k = some i) : k ≠ h ∧ slots k = some i := by
  rcases of_update held with ⟨_, gone⟩ | kept
  · contradiction
  · exact kept

theorem drop {slots : Holder → Option Slot} {taken : Finset Slot} (leases : Leases slots taken)
    (h : Holder) : Leases (Function.update slots h none) taken where
  taken := fun k i held => leases.taken k i (held_of_none held).2
  alone := fun k l i first second =>
    leases.alone k l i (held_of_none first).2 (held_of_none second).2

variable [DecidableEq Slot]

theorem grant {slots : Holder → Option Slot} {taken : Finset Slot} (leases : Leases slots taken)
    (h : Holder) {i : Slot} (free : i ∉ taken) :
    Leases (Function.update slots h (some i)) (insert i taken) where
  taken := by
    intro k j held
    rcases of_update held with ⟨_, new⟩ | ⟨_, old⟩
    · obtain rfl := Option.some.inj new
      exact Finset.mem_insert_self i taken
    · exact Finset.mem_insert_of_mem (leases.taken k j old)
  alone := by
    -- nobody held the slot before
    have fresh : ∀ k, slots k ≠ some i := fun k held => free (leases.taken k i held)
    intro k l j first second
    rcases of_update first with ⟨here, new⟩ | ⟨_, old⟩ <;>
      rcases of_update second with ⟨there, new'⟩ | ⟨_, old'⟩
    · rw [here, there]
    · exact absurd (new ▸ old') (fresh l)
    · exact absurd (new' ▸ old) (fresh k)
    · exact leases.alone k l j old old'

theorem release {slots : Holder → Option Slot} {taken : Finset Slot}
    (leases : Leases slots taken) {h : Holder} {i : Slot} (held : slots h = some i) :
    Leases (Function.update slots h none) (taken.erase i) where
  taken := by
    intro k j other
    obtain ⟨different, other⟩ := held_of_none other
    have elsewhere : j ≠ i := leases.apart held other different
    exact Finset.mem_erase_of_ne_of_mem elsewhere (leases.taken k j other)
  alone := (leases.drop h).alone

end Leases

/-- No slot is taken that nobody holds. -/
def Occupied (slots : Holder → Option Slot) (taken : Finset Slot) : Prop :=
  ∀ i ∈ taken, ∃ h, slots h = some i

namespace Occupied

variable [DecidableEq Holder] {slots : Holder → Option Slot} {taken : Finset Slot}

theorem drop (occupied : Occupied slots taken) {h : Holder} (nothing : slots h = none) :
    Occupied (Function.update slots h none) taken := by
  rwa [← nothing, Function.update_eq_self]

variable [DecidableEq Slot]

theorem grant (occupied : Occupied slots taken) {h : Holder} (nothing : slots h = none)
    (i : Slot) : Occupied (Function.update slots h (some i)) (insert i taken) := by
  intro j member
  rcases Finset.mem_insert.mp member with rfl | old
  · exact ⟨h, Function.update_self ..⟩
  · obtain ⟨k, held⟩ := occupied j old
    have other : k ≠ h := by
      rintro rfl
      exact Option.some_ne_none j (held.symm.trans nothing)
    exact ⟨k, by rwa [Function.update_of_ne other]⟩

theorem release (occupied : Occupied slots taken) {h : Holder} {i : Slot}
    (held : slots h = some i) : Occupied (Function.update slots h none) (taken.erase i) := by
  intro j member
  obtain ⟨elsewhere, old⟩ := Finset.mem_erase.mp member
  obtain ⟨k, also⟩ := occupied j old
  have other : k ≠ h := by
    rintro rfl
    exact elsewhere (Option.some.inj (also.symm.trans held))
  exact ⟨k, by rwa [Function.update_of_ne other]⟩

end Occupied

/-- The holders of some slots, in the order of the slots. -/
theorem Leases.holders {slots : Holder → Option Slot} {taken : Finset Slot}
    (leases : Leases slots taken) (occupied : Occupied slots taken) {l : List Slot}
    (within : ∀ i ∈ l, i ∈ taken) (once : l.Nodup) :
    ∃ hs : List Holder, hs.map slots = l.map some ∧ hs.Nodup ∧
      ∀ h, h ∈ hs ↔ ∃ i ∈ l, slots h = some i := by
  have listed : ∃ hs : List Holder, hs.map slots = l.map some := by
    clear once
    induction l with
    | nil => exact ⟨[], rfl⟩
    | cons i rest ih =>
      obtain ⟨h, held⟩ := occupied i (within i List.mem_cons_self)
      obtain ⟨hs, same⟩ := ih fun j member => within j (List.mem_cons_of_mem i member)
      exact ⟨h :: hs, by rw [List.map_cons, List.map_cons, held, same]⟩
  obtain ⟨hs, same⟩ := listed
  refine ⟨hs, same, ?_, fun h => ?_⟩
  · apply List.Nodup.of_map slots
    rw [same]
    exact once.map (Option.some_injective Slot)
  · constructor
    · intro member
      have among : slots h ∈ l.map some := same ▸ List.mem_map_of_mem member
      obtain ⟨i, here, held⟩ := List.mem_map.mp among
      exact ⟨i, here, held.symm⟩
    · rintro ⟨i, here, held⟩
      have among : some i ∈ hs.map slots := same ▸ List.mem_map_of_mem here
      obtain ⟨k, member, also⟩ := List.mem_map.mp among
      exact leases.alone k h i also held ▸ member

end ComIpc.Semantics
