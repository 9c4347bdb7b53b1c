import ComIpc.Service.Tenure

/-! The two flags of the slot are never both raised.

The server takes a request only while no response is waiting, and waits only while there
is no request. With both flags raised it would do neither.
-/

set_option autoImplicit false

namespace ComIpc.Service

open Semantics

def ServiceShm.Exclusive (shm : ServiceShm) : Prop :=
  shm.hasRequest = true → shm.hasResponse = false

section
variable {C D : Type} [DecidableEq C] [DecidableEq D]

theorem Tenure.exclusive {s t : State C D} {e : Event C D} (tenure : Tenure s e t)
    (exclusive : s.shm.Exclusive) : t.shm.Exclusive := by
  cases tenure with
  | kept mutex _ _ _ => exact exclusive
  | reset mutex _ _ _ _ => exact fun _ => rfl
  | posted mutex c call _ _ _ _ _ => exact fun _ => rfl
  | pickedUp mutex d _ _ _ => exact exclusive
  | completed mutex d _ _ => exact fun raised => nomatch raised
  | delivered mutex c _ _ _ _ _ => exact fun _ => rfl

/-- The server's look at a slot: a pending request is taken and stays where it is. -/
structure Looked (d : D) (s t : State C D) : Prop where
  pending : t.shm.hasRequest = s.shm.hasRequest
  took : s.shm.hasRequest = true → t.drivers d = .serving s.shm.request

omit [DecidableEq C] in
theorem pickUp_looked {s : State C D} (exclusive : s.shm.Exclusive) (d : D) :
    Looked d s (pickUp s d) := by
  unfold pickUp
  split
  · exact ⟨rfl, fun _ => Function.update_self ..⟩
  · rename_i skipped
    exact ⟨rfl, fun raised => absurd ⟨raised, exclusive raised⟩ skipped⟩

omit [DecidableEq C] in
theorem waitLoop_looked {s : State C D} (exclusive : s.shm.Exclusive) (d : D) :
    Looked d s (waitLoop s d true false) := by
  unfold waitLoop
  split
  · rename_i empty
    exact ⟨rfl, fun raised => by simp [empty.1] at raised⟩
  · exact pickUp_looked exclusive d

omit [DecidableEq C] in
theorem waitLoop_busy {s : State C D} (exclusive : s.shm.Exclusive) (d : D) :
    (waitLoop s d true false).drivers d ≠ .idle := by
  have looked := waitLoop_looked exclusive d
  cases raised : s.shm.hasRequest with
  | true => simp [looked.took raised]
  | false => simp [waitLoop, raised, State.putDriver]

theorem looks_takes {s t : State C D} {e : Event C D} {d : D} (exclusive : s.shm.Exclusive)
    (looks : e.looks = some (d, true, false)) (taken : next s e = some t) :
    Looked d s t ∨ e.Repairs s ∧ t.shm.hasRequest = false := by
  cases e with
  | serviceLoop own running shutdown =>
    simp only [Event.looks, Option.some.injEq, Prod.mk.injEq] at looks
    obtain ⟨rfl, rfl, rfl⟩ := looks
    simp only [next, Option.bind_eq_bind, Option.bind_eq_some_iff, Option.some.injEq] at taken
    obtain ⟨_, _, shm, locked, rfl⟩ := taken
    obtain ⟨rfl, _⟩ := ServiceShm.lockRobust_eq locked
    have looked := waitLoop_looked (s := { s with shm := { s.shm with mutex := .held } })
      exclusive own
    exact .inl ⟨looked.pending, looked.took⟩
  | loopWake own cause running shutdown =>
    simp only [Event.looks, Option.some.injEq, Prod.mk.injEq] at looks
    obtain ⟨rfl, rfl, rfl⟩ := looks
    simp only [next, Option.bind_eq_bind, Option.bind_eq_some_iff] at taken
    obtain ⟨_, _, ⟨mutex, ret⟩, acquired, taken⟩ := taken
    split at taken
    · rename_i died
      obtain rfl := Option.some.inj taken
      refine .inr ⟨⟨trivial, by simpa [Event.reports, acquired] using died⟩, ?_⟩
      exact (waitLoop_looked (fun _ => rfl) own).pending
    · split at taken <;> obtain rfl := Option.some.inj taken
      · have looked := pickUp_looked (s := { s with shm := { s.shm with mutex := mutex } })
          exclusive own
        exact .inl ⟨looked.pending, looked.took⟩
      · have looked := waitLoop_looked (s := { s with shm := { s.shm with mutex := mutex } })
          exclusive own
        exact .inl ⟨looked.pending, looked.took⟩
  | spinOnce own =>
    simp only [Event.looks, Option.some.injEq, Prod.mk.injEq] at looks
    obtain ⟨rfl, _, _⟩ := looks
    simp only [next, Option.bind_eq_bind, Option.bind_eq_some_iff, Option.some.injEq] at taken
    obtain ⟨_, _, shm, locked, rfl⟩ := taken
    obtain ⟨rfl, _⟩ := ServiceShm.lockRobust_eq locked
    have looked := pickUp_looked (s := { s with shm := { s.shm with mutex := .held } })
      exclusive own
    exact .inl ⟨looked.pending, looked.took⟩
  | connect | call | freeWake | responseWake | complete | clientDies | driverDies =>
    simp [Event.looks] at looks

theorem serviceLoop_busy {s t : State C D} {d : D} (exclusive : s.shm.Exclusive)
    (taken : next s (.serviceLoop d true false) = some t) : t.drivers d ≠ .idle := by
  simp only [next, Option.bind_eq_bind, Option.bind_eq_some_iff, Option.some.injEq] at taken
  obtain ⟨_, _, shm, locked, rfl⟩ := taken
  obtain ⟨rfl, _⟩ := ServiceShm.lockRobust_eq locked
  exact waitLoop_busy (s := { s with shm := { s.shm with mutex := .held } }) exclusive d

theorem reachable_exclusive {s : State C D}
    (reach : (machine C D).ReachableWhen (fun _ e => ¬ e.DiesInside) s) : s.shm.Exclusive := by
  refine reach.invariant (fun s => s.shm.Exclusive) ?_ fun s e t exclusive outside taken =>
    (next_tenure outside taken).exclusive exclusive
  rintro s rfl raised
  exact nomatch raised

/-- The flags exclude each other; so a server that is not stopping takes the request that it
sees, goes round only when there is none, and begins no round without waiting or serving. -/
theorem pending_request_is_taken {s : State C D}
    (reach : (machine C D).ReachableWhen (fun _ e => ¬ e.DiesInside) s) :
    ¬ (s.shm.hasRequest = true ∧ s.shm.hasResponse = true) ∧
    (∀ e d t, e.looks = some (d, true, false) → next s e = some t →
      (s.shm.hasRequest = true → ¬ e.Repairs s → t.drivers d = .serving s.shm.request) ∧
      (t.drivers d = .idle → t.shm.hasRequest = false)) ∧
    ∀ d t, next s (.serviceLoop d true false) = some t → t.drivers d ≠ .idle := by
  have exclusive := reachable_exclusive reach
  refine ⟨?_, ?_, fun d t taken => serviceLoop_busy exclusive taken⟩
  · rintro ⟨request, response⟩
    exact absurd (exclusive request) (by simp [response])
  · intro e d t looks taken
    rcases looks_takes exclusive looks taken with looked | ⟨repairs, empty⟩
    · refine ⟨fun raised _ => looked.took raised, fun idle => ?_⟩
      -- had there been a request, the driver would be in the callback
      by_contra raised
      rw [looked.pending, Bool.not_eq_false] at raised
      simp [looked.took raised] at idle
    · exact ⟨fun _ regular => absurd repairs regular, fun _ => empty⟩

/-- A late completion answers a call that was given up, and the next request is still taken. -/
theorem pending_request_is_taken_late :
    ∃ s : State (Fin 2) Unit, s.shm.hasRequest = true ∧
      ∀ t, next s (.spinOnce ()) = some t → t.drivers () = .serving s.shm.request := by
  obtain ⟨s, reach, raised⟩ := Machine.reachable_of_check (machine (Fin 2) Unit)
    (fun _ e => ¬ e.DiesInside) rfl
    [.connect 0 100, .connect 1 101, .call 0 (.ofByte 1) false false, .spinOnce (),
      .responseWake 0 .timedOut false, .complete () (.ofByte 10),
      .call 1 (.ofByte 2) false false]
    (fun s => s.shm.hasRequest) (by decide +kernel)
  refine ⟨s, raised, fun t taken => ?_⟩
  exact ((pending_request_is_taken reach).2.1 _ () t rfl taken).1 raised (fun repairs => repairs.1)

end

end ComIpc.Service
