import ComIpc.Semantics.Monitor
import ComIpc.Service.Slot

/-! The two condition variables of a service.

A post broadcasts on the one that the server waits on, the end of a callback on the one
that the clients wait on, both for a response and for a free slot. Nothing else broadcasts.
So the server and a client that waits for its response never sleep through what they wait
for; a client that waits for a free slot does when the slot is freed by a call that gives up.
-/

set_option autoImplicit false

namespace ComIpc.Service

open Semantics SystemManager

section
variable {C D : Type}

def Event.client : Event C D → Option C
  | .connect c _ | .call c _ _ _ | .freeWake c _ _ _ | .responseWake c _ _ | .clientDies c _ _ =>
    some c
  | .serviceLoop _ _ _ | .loopWake _ _ _ _ | .spinOnce _ | .complete _ _ | .driverDies _ _ _ => none

def Event.driver : Event C D → Option D
  | .serviceLoop d _ _ | .loopWake d _ _ _ | .spinOnce d | .complete d _ | .driverDies d _ _ =>
    some d
  | .connect _ _ | .call _ _ _ _ | .freeWake _ _ _ _ | .responseWake _ _ _ | .clientDies _ _ _ =>
    none

def Event.LeavesFree : Event C D → Prop
  | .clientDies _ holding leftover | .driverDies _ holding leftover =>
    holding = true ∧ leftover.hasRequest = false
  | _ => False

def Event.completes : Event C D → Bool
  | .complete _ _ => true
  | _ => false

section
variable [DecidableEq C]

theorem postWhenFree_others (s : State C D) {c other : C} (apart : other ≠ c) (client : Client)
    (call : Call) (shutdown interrupted : Bool) :
    (postWhenFree s c client call shutdown interrupted).clients other = s.clients other := by
  unfold postWhenFree
  split
  · exact Function.update_of_ne apart _ _
  · split
    · exact Function.update_of_ne apart _ _
    · exact Function.update_of_ne apart _ _

theorem takeResponse_others (s : State C D) {c other : C} (apart : other ≠ c) (client : Client)
    (call : Call) (ticket : Nat) (shutdown : Bool) :
    (takeResponse s c client call ticket shutdown).clients other = s.clients other := by
  unfold takeResponse
  split
  · rfl
  · split
    · exact Function.update_of_ne apart _ _
    · exact Function.update_of_ne apart _ _

theorem postWhenFree_drivers (s : State C D) (c : C) (client : Client) (call : Call)
    (shutdown interrupted : Bool) :
    (postWhenFree s c client call shutdown interrupted).drivers = s.drivers := by
  unfold postWhenFree
  split
  · rfl
  · split <;> rfl

theorem takeResponse_drivers (s : State C D) (c : C) (client : Client) (call : Call)
    (ticket : Nat) (shutdown : Bool) :
    (takeResponse s c client call ticket shutdown).drivers = s.drivers := by
  unfold takeResponse
  split
  · rfl
  · split <;> rfl

theorem postWhenFree_client (s : State C D) (c : C) (client : Client) (call : Call)
    (shutdown interrupted : Bool) :
    ∃ after, (postWhenFree s c client call shutdown interrupted).clients c = some after ∧
      ((∃ other, after.phase = .waitFree other) →
        (postWhenFree s c client call shutdown interrupted).shm.hasRequest = true) ∧
      ((∃ other ticket, after.phase = .waitResponse other ticket) →
        (postWhenFree s c client call shutdown interrupted).shm.hasResponse = false) := by
  unfold postWhenFree
  split
  · rename_i taken
    exact ⟨_, Function.update_self _ _ _, fun _ => taken.1, nofun⟩
  · split
    · exact ⟨_, Function.update_self _ _ _, nofun, nofun⟩
    · exact ⟨_, Function.update_self _ _ _, fun _ => rfl, fun _ => rfl⟩

theorem takeResponse_client {s : State C D} {c : C} {client : Client} {call : Call} {ticket : Nat}
    (alive : s.clients c = some client) (waits : client.phase = .waitResponse call ticket)
    (shutdown : Bool) :
    ∃ after, (takeResponse s c client call ticket shutdown).clients c = some after ∧
      (∀ other, after.phase ≠ .waitFree other) ∧
      ((∃ other ticket, after.phase = .waitResponse other ticket) →
        (takeResponse s c client call ticket shutdown).shm.hasResponse = false) := by
  unfold takeResponse
  split
  · rename_i nothing
    exact ⟨client, alive, fun other => waits ▸ nofun, fun _ => nothing.1⟩
  · split
    · exact ⟨_, Function.update_self _ _ _, nofun, nofun⟩
    · exact ⟨_, Function.update_self _ _ _, nofun, nofun⟩

end

section
variable [DecidableEq D]

theorem pickUp_parties (s : State C D) (d : D) : (pickUp s d).clients = s.clients ∧
    (∀ other, other ≠ d → (pickUp s d).drivers other = s.drivers other) ∧
    (pickUp s d).drivers d ≠ .waiting := by
  unfold pickUp
  split
  · refine ⟨rfl, fun other apart => Function.update_of_ne apart _ _, ?_⟩
    simp [State.putDriver]
  · refine ⟨rfl, fun other apart => Function.update_of_ne apart _ _, ?_⟩
    simp [State.putDriver]

theorem leaveLoop_parties (s : State C D) (d : D) (running shutdown : Bool) :
    (leaveLoop s d running shutdown).clients = s.clients ∧
    (∀ other, other ≠ d → (leaveLoop s d running shutdown).drivers other = s.drivers other) ∧
    (leaveLoop s d running shutdown).drivers d ≠ .waiting := by
  unfold leaveLoop
  split
  · refine ⟨rfl, fun other apart => Function.update_of_ne apart _ _, ?_⟩
    simp [State.putDriver]
  · exact pickUp_parties s d

theorem waitLoop_parties (s : State C D) (d : D) (running shutdown : Bool) :
    (waitLoop s d running shutdown).clients = s.clients ∧
    (∀ other, other ≠ d → (waitLoop s d running shutdown).drivers other = s.drivers other) ∧
    ((waitLoop s d running shutdown).drivers d = .waiting →
      (waitLoop s d running shutdown).shm.hasRequest = false) := by
  unfold waitLoop
  split
  · rename_i empty
    exact ⟨rfl, fun other apart => Function.update_of_ne apart _ _, fun _ => empty.1⟩
  · obtain ⟨clients, others, leaves⟩ := leaveLoop_parties s d running shutdown
    exact ⟨clients, others, fun waiting => absurd waiting leaves⟩

end

/-- Whose state a step changes, and over which flags its own party goes to sleep. -/
structure Parties (s t : State C D) (e : Event C D) : Prop where
  clients : ∀ c, e.client ≠ some c → t.clients c = s.clients c
  drivers : ∀ d, e.driver ≠ some d → t.drivers d = s.drivers d
  free : ∀ c client call, e.client = some c → t.clients c = some client →
    client.phase = .waitFree call → t.shm.hasRequest = true
  response : ∀ c client call ticket, e.client = some c → t.clients c = some client →
    client.phase = .waitResponse call ticket → t.shm.hasResponse = false
  server : ∀ d, e.driver = some d → t.drivers d = .waiting → t.shm.hasRequest = false

theorem Parties.ofClient {s t : State C D} {e : Event C D} {c : C} (acts : e.client = some c)
    (nobody : e.driver = none) (clients : ∀ other, other ≠ c → t.clients other = s.clients other)
    (drivers : t.drivers = s.drivers)
    (own : ∀ client, t.clients c = some client →
      ((∃ call, client.phase = .waitFree call) → t.shm.hasRequest = true) ∧
      ((∃ call ticket, client.phase = .waitResponse call ticket) → t.shm.hasResponse = false)) :
    Parties s t e where
  clients := by
    intro other apart
    exact clients other fun same => apart (same ▸ acts)
  drivers := fun d _ => congrFun drivers d
  free := by
    intro other client call same alive waits
    obtain rfl := Option.some.inj (acts.symm.trans same)
    exact (own client alive).1 ⟨call, waits⟩
  response := by
    intro other client call ticket same alive waits
    obtain rfl := Option.some.inj (acts.symm.trans same)
    exact (own client alive).2 ⟨call, ticket, waits⟩
  server := by
    intro d same
    exact nomatch nobody.symm.trans same

theorem Parties.ofDriver {s t : State C D} {e : Event C D} {d : D} (acts : e.driver = some d)
    (nobody : e.client = none) (clients : t.clients = s.clients)
    (drivers : ∀ other, other ≠ d → t.drivers other = s.drivers other)
    (own : t.drivers d = .waiting → t.shm.hasRequest = false) : Parties s t e where
  clients := fun c _ => congrFun clients c
  drivers := by
    intro other apart
    exact drivers other fun same => apart (same ▸ acts)
  free := by
    intro c client call same
    exact nomatch nobody.symm.trans same
  response := by
    intro c client call ticket same
    exact nomatch nobody.symm.trans same
  server := by
    intro other same waiting
    obtain rfl := Option.some.inj (acts.symm.trans same)
    exact own waiting

section
variable [DecidableEq C]

@[simp] theorem putClient_self (s : State C D) (c : C) (client : Client) :
    (s.putClient c client).clients c = some client := Function.update_self _ _ _

theorem Parties.idle {s : State C D} {e : Event C D} {c : C} (acts : e.client = some c)
    (nobody : e.driver = none) (shm : ServiceShm) {client : Client}
    (idle : client.phase = .idle) :
    Parties s (State.putClient { s with shm := shm } c client) e := by
  refine .ofClient acts nobody (fun other apart => Function.update_of_ne apart _ _) rfl ?_
  intro after alive
  obtain rfl := Option.some.inj ((putClient_self _ c client).symm.trans alive)
  exact ⟨fun waits => absurd (idle.symm.trans waits.choose_spec) nofun,
    fun waits => absurd (idle.symm.trans waits.choose_spec.choose_spec) nofun⟩

theorem Parties.posting {s : State C D} {e : Event C D} {c : C} (acts : e.client = some c)
    (nobody : e.driver = none) (shm : ServiceShm) (client : Client) (call : Call)
    (shutdown interrupted : Bool) :
    Parties s (postWhenFree { s with shm := shm } c client call shutdown interrupted) e := by
  obtain ⟨after, own, free, response⟩ := postWhenFree_client { s with shm := shm } c client call
    shutdown interrupted
  refine .ofClient acts nobody
    (fun other apart => postWhenFree_others { s with shm := shm } apart client call shutdown
      interrupted)
    (postWhenFree_drivers { s with shm := shm } c client call shutdown interrupted) ?_
  intro found alive
  obtain rfl := Option.some.inj (own.symm.trans alive)
  exact ⟨free, response⟩

end

theorem Parties.waiting [DecidableEq D] {s : State C D} {e : Event C D} {d : D}
    (acts : e.driver = some d) (nobody : e.client = none) (shm : ServiceShm)
    (running shutdown : Bool) :
    Parties s (waitLoop { s with shm := shm } d running shutdown) e := by
  obtain ⟨clients, others, own⟩ := waitLoop_parties { s with shm := shm } d running shutdown
  exact .ofDriver acts nobody clients others own

variable [DecidableEq C] [DecidableEq D]

theorem next_parties {s t : State C D} {e : Event C D} (taken : next s e = some t) :
    Parties s t e := by
  cases e with
  | connect c pid =>
    simp only [next, Option.bind_eq_bind, Option.bind_eq_some_iff, Option.some.injEq] at taken
    obtain ⟨_, _, rfl⟩ := taken
    exact .idle rfl rfl s.shm rfl
  | call c call shutdown interrupted =>
    simp only [next, Option.bind_eq_bind, Option.bind_eq_some_iff, Option.some.injEq] at taken
    obtain ⟨client, _, _, _, shm, _, rfl⟩ := taken
    exact .posting rfl rfl shm client call shutdown interrupted
  | freeWake c cause shutdown interrupted =>
    simp only [next, Option.bind_eq_bind, Option.bind_eq_some_iff] at taken
    obtain ⟨client, _, ⟨mutex, ret⟩, _, taken⟩ := taken
    split at taken
    · split at taken <;> obtain rfl := Option.some.inj taken
      · exact .idle rfl rfl _ rfl
      · exact .posting rfl rfl _ client _ shutdown interrupted
    · contradiction
  | responseWake c cause shutdown =>
    simp only [next, Option.bind_eq_bind, Option.bind_eq_some_iff] at taken
    obtain ⟨client, alive, ⟨mutex, ret⟩, _, taken⟩ := taken
    split at taken
    · rename_i call ticket waits
      split at taken <;> obtain rfl := Option.some.inj taken
      · exact .idle rfl rfl _ rfl
      · let locked : State C D := { s with shm := { s.shm with mutex := mutex } }
        obtain ⟨after, own, free, response⟩ := takeResponse_client (s := locked) alive waits
          shutdown
        refine .ofClient rfl rfl
          (fun other apart => takeResponse_others locked apart client call ticket shutdown)
          (takeResponse_drivers locked c client call ticket shutdown) ?_
        intro found here
        obtain rfl := Option.some.inj (own.symm.trans here)
        exact ⟨fun waits => absurd waits.choose_spec (free _), response⟩
    · contradiction
  | serviceLoop d running shutdown =>
    simp only [next, Option.bind_eq_bind, Option.bind_eq_some_iff, Option.some.injEq] at taken
    obtain ⟨_, _, shm, _, rfl⟩ := taken
    exact .waiting rfl rfl shm running shutdown
  | loopWake d cause running shutdown =>
    simp only [next, Option.bind_eq_bind, Option.bind_eq_some_iff] at taken
    obtain ⟨_, _, ⟨mutex, ret⟩, _, taken⟩ := taken
    split at taken
    · obtain rfl := Option.some.inj taken
      exact .waiting rfl rfl _ running shutdown
    · split at taken <;> obtain rfl := Option.some.inj taken
      · obtain ⟨clients, others, own⟩ := leaveLoop_parties
          { s with shm := { s.shm with mutex := mutex } } d running shutdown
        exact .ofDriver rfl rfl clients others fun waiting => absurd waiting own
      · exact .waiting rfl rfl _ running shutdown
  | spinOnce d =>
    simp only [next, Option.bind_eq_bind, Option.bind_eq_some_iff, Option.some.injEq] at taken
    obtain ⟨_, _, shm, _, rfl⟩ := taken
    obtain ⟨clients, others, own⟩ := pickUp_parties { s with shm := shm } d
    exact .ofDriver rfl rfl clients others fun waiting => absurd waiting own
  | complete d outcome =>
    simp only [next] at taken
    split at taken
    · simp only [Option.bind_eq_bind, Option.bind_eq_some_iff, Option.some.injEq] at taken
      obtain ⟨shm, _, rfl⟩ := taken
      refine .ofDriver rfl rfl rfl (fun other apart => Function.update_of_ne apart _ _) ?_
      exact fun _ => rfl
    · contradiction
  | clientDies c holding leftover =>
    simp only [next, Option.bind_eq_bind, Option.bind_eq_some_iff, Option.some.injEq] at taken
    obtain ⟨_, _, shm, _, rfl⟩ := taken
    refine .ofClient rfl rfl (fun other apart => Function.update_of_ne apart _ _) rfl ?_
    intro client alive
    simp at alive
  | driverDies d holding leftover =>
    simp only [next, Option.bind_eq_bind, Option.bind_eq_some_iff, Option.some.injEq] at taken
    obtain ⟨shm, _, rfl⟩ := taken
    refine .ofDriver rfl rfl rfl (fun other apart => Function.update_of_ne apart _ _) ?_
    simp [State.putDriver]

/-- The wait of `serviceLoop`. -/
def requestWait : Monitor (State C D) (Event C D) D where
  acts := Event.driver
  waits := fun s d => s.drivers d = .waiting
  ready := fun s _ => s.shm.hasRequest = true
  wakes := fun s e _ => decide (e.Posts s)

/-- The second wait of `call`. -/
def responseWait : Monitor (State C D) (Event C D) C where
  acts := Event.client
  waits := fun s c => ∃ client call ticket, s.clients c = some client ∧
    client.phase = .waitResponse call ticket
  ready := fun s _ => s.shm.hasResponse = true
  wakes := fun _ e _ => e.completes

/-- The first wait of `call`. -/
def freeWait : Monitor (State C D) (Event C D) C where
  acts := Event.client
  waits := fun s c => ∃ client call, s.clients c = some client ∧ client.phase = .waitFree call
  ready := fun s _ => s.shm.hasRequest = false
  wakes := fun _ e _ => e.completes

def Undisturbed (s : State C D) (e : Event C D) : Prop :=
  ¬ e.DiesInside ∧ e.abandons s = none ∧ ¬ e.Repairs s

instance (s : State C D) (e : Event C D) : Decidable (Undisturbed s e) :=
  inferInstanceAs (Decidable (_ ∧ _ ∧ _))

theorem requestWait_kept :
    (requestWait (C := C) (D := D)).Kept (machine C D) (fun _ e => ¬ e.DiesInside) where
  start := by
    rintro s rfl d waiting
    exact nomatch waiting
  own := by
    intro s e t d _ taken own waiting
    exact Bool.eq_false_iff.mp ((next_parties taken).server d own waiting)
  asleep := by
    intro s e t d _ taken other waiting
    exact ((next_parties taken).drivers d other).symm.trans waiting
  other := by
    intro s e t d outside taken _ _ raised
    cases next_tenure outside taken with
    | kept | pickedUp | delivered => exact .inl raised
    | reset | completed => exact nomatch raised
    | posted =>
      refine .inr (decide_eq_true ?_)
      exact (congrArg _ taken).trans (congrArg some List.length_append)

theorem responseWait_kept :
    (responseWait (C := C) (D := D)).Kept (machine C D) (fun _ e => ¬ e.DiesInside) where
  start := by
    rintro s rfl c ⟨client, call, ticket, alive, _⟩
    exact nomatch alive
  own := by
    rintro s e t c _ taken own ⟨client, call, ticket, alive, waits⟩
    exact Bool.eq_false_iff.mp ((next_parties taken).response c client call ticket own alive waits)
  asleep := by
    rintro s e t c _ taken other ⟨client, call, ticket, alive, waits⟩
    exact ⟨client, call, ticket, (next_parties taken).clients c other ▸ alive, waits⟩
  other := by
    intro s e t c outside taken _ _ raised
    cases next_tenure outside taken with
    | kept | pickedUp => exact .inl raised
    | reset | posted | delivered => exact nomatch raised
    | completed _ _ same _ =>
      subst same
      exact .inr rfl

theorem freeWait_kept : (freeWait (C := C) (D := D)).Kept (machine C D) Undisturbed where
  start := by
    rintro s rfl c ⟨client, call, alive, _⟩
    exact nomatch alive
  own := by
    rintro s e t c _ taken own ⟨client, call, alive, waits⟩ free
    have taken := (next_parties taken).free c client call own alive waits
    exact Bool.false_ne_true (free.symm.trans taken)
  asleep := by
    rintro s e t c _ taken other ⟨client, call, alive, waits⟩
    exact ⟨client, call, (next_parties taken).clients c other ▸ alive, waits⟩
  other := by
    rintro s e t c ⟨outside, together, regular⟩ taken _ _ free
    cases next_tenure outside taken with
    | kept | pickedUp | delivered => exact .inl free
    | posted => exact nomatch free
    | reset _ cause => exact absurd (cause.resolve_right regular) (not_not.mpr together)
    | completed _ _ same _ =>
      subst same
      exact .inr rfl

omit [DecidableEq C] [DecidableEq D] in
theorem one_party (e : Event C D) : e.driver = none ∨ e.client = none := by
  cases e <;> simp [Event.driver, Event.client]

abbrev channel : Monitor (State C D) (Event C D) (D ⊕ C) := requestWait.both responseWait

/-- In every run in which nobody dies inside a critical section, a thread of the server that no
broadcast has reached sleeps over an empty slot, and a client that no broadcast has reached
sleeps without a response. -/
theorem nobody_sleeps_through {w : Watched (State C D) (D ⊕ C)}
    (reach : (channel.watch (machine C D)).ReachableWhen (fun _ e => ¬ e.DiesInside) w) :
    (∀ d, w.state.drivers d = .waiting → w.notified (.inl d) = false →
      w.state.shm.hasRequest = false) ∧
    ∀ c client call ticket, w.state.clients c = some client →
      client.phase = .waitResponse call ticket → w.notified (.inr c) = false →
      w.state.shm.hasResponse = false := by
  have kept := requestWait_kept.both (responseWait_kept (C := C) (D := D)) one_party
  constructor
  · intro d waiting asleep
    by_contra pending
    rw [Bool.not_eq_false] at pending
    have reached := kept.notified (i := .inl d) reach waiting pending
    exact Bool.false_ne_true (asleep.symm.trans reached)
  · intro c client call ticket alive waits asleep
    by_contra answered
    rw [Bool.not_eq_false] at answered
    have reached := kept.notified (i := .inr c) reach ⟨client, call, ticket, alive, waits⟩ answered
    exact Bool.false_ne_true (asleep.symm.trans reached)

omit [DecidableEq C] in
theorem waitLoop_empty {s : State C D} (empty : s.shm.hasRequest = false) (d : D)
    (running shutdown : Bool) : (waitLoop s d running shutdown).shm.hasRequest = false := by
  unfold waitLoop leaveLoop pickUp
  split
  · exact empty
  · split
    · exact empty
    · split <;> exact empty

theorem next_resets {s t : State C D} {e : Event C D}
    (resets : e.abandons s ≠ none ∨ e.Repairs s) (taken : next s e = some t) :
    t.shm.hasRequest = false ∧ e.completes = false := by
  cases e with
  | freeWake c cause shutdown interrupted =>
    simp only [next, Option.bind_eq_bind, Option.bind_eq_some_iff] at taken
    obtain ⟨client, _, ⟨mutex, ret⟩, acquired, taken⟩ := taken
    have failed : ret ≠ .ok := by
      rintro rfl
      exact resets.elim (fun gone => gone (by simp [Event.abandons, Event.reports, acquired]))
        fun repairs => repairs.1
    split at taken
    · rw [if_pos failed] at taken
      exact Option.some.inj taken ▸ ⟨rfl, rfl⟩
    · contradiction
  | responseWake c cause shutdown =>
    simp only [next, Option.bind_eq_bind, Option.bind_eq_some_iff] at taken
    obtain ⟨client, _, ⟨mutex, ret⟩, acquired, taken⟩ := taken
    have failed : ret ≠ .ok := by
      rintro rfl
      exact resets.elim (fun gone => gone (by simp [Event.abandons, Event.reports, acquired]))
        fun repairs => repairs.1
    split at taken
    · rw [if_pos failed] at taken
      exact Option.some.inj taken ▸ ⟨rfl, rfl⟩
    · contradiction
  | loopWake d cause running shutdown =>
    simp only [next, Option.bind_eq_bind, Option.bind_eq_some_iff] at taken
    obtain ⟨_, _, ⟨mutex, ret⟩, acquired, taken⟩ := taken
    have died : ret = .ownerDead := by
      have reports := (resets.resolve_left fun gone => gone rfl).2
      simpa [Event.reports, acquired] using reports
    rw [if_pos died] at taken
    exact Option.some.inj taken ▸ ⟨waitLoop_empty rfl d running shutdown, rfl⟩
  | connect | call | serviceLoop | spinOnce | complete | clientDies | driverDies =>
    exact absurd resets (by simp [Event.abandons, Event.Repairs])

theorem Tenure.frees {s t : State C D} {e : Event C D}
    (tenure : Tenure s e t) (taken : s.shm.hasRequest = true) (free : t.shm.hasRequest = false) :
    (e.abandons s ≠ none ∨ e.Repairs s) ∨ e.completes = true := by
  cases tenure with
  | kept | pickedUp | delivered => exact absurd (taken.symm.trans free) nofun
  | posted _ _ _ empty => exact absurd (taken.symm.trans empty) nofun
  | reset _ cause => exact .inl cause
  | completed _ _ same _ =>
    subst same
    exact .inr rfl

omit [DecidableEq C] [DecidableEq D] in
theorem Event.LeavesFree.inside {e : Event C D} (leaves : e.LeavesFree) : e.DiesInside := by
  cases e with
  | clientDies | driverDies => exact leaves.1
  | connect | call | freeWake | responseWake | serviceLoop | loopWake | spinOnce | complete =>
    exact leaves

theorem next_diesInside {s t : State C D} {e : Event C D} (inside : e.DiesInside)
    (taken : next s e = some t) :
    (t.shm.hasRequest = false ↔ e.LeavesFree) ∧ e.abandons s = none ∧ e.completes = false := by
  have left : ∀ {shm leftover : ServiceShm}, slotAfterDeath true s.shm leftover = some shm →
      shm.hasRequest = leftover.hasRequest := by
    intro shm leftover died
    obtain ⟨_, _, died⟩ := Option.bind_eq_some_iff.mp died
    exact Option.some.inj died ▸ rfl
  cases e with
  | clientDies c holding leftover =>
    obtain rfl : holding = true := inside
    simp only [next, Option.bind_eq_bind, Option.bind_eq_some_iff, Option.some.injEq] at taken
    obtain ⟨_, _, shm, died, rfl⟩ := taken
    simp [Event.LeavesFree, Event.abandons, Event.completes, left died]
  | driverDies d holding leftover =>
    obtain rfl : holding = true := inside
    simp only [next, Option.bind_eq_bind, Option.bind_eq_some_iff, Option.some.injEq] at taken
    obtain ⟨shm, died, rfl⟩ := taken
    simp [Event.LeavesFree, Event.abandons, Event.completes, State.putDriver, left died]
  | connect | call | freeWake | responseWake | serviceLoop | loopWake | spinOnce | complete =>
    exact inside.elim

/-- A client waits for a free slot and no broadcast has reached it, in a run without give-ups
and deaths inside so far. The slot is then taken; the steps of others that free it without a
broadcast are the give-ups and the deaths of those who have just freed it, and they leave the
client asleep until a callback ends or its own time is up. -/
theorem free_slot_sleeper {w : Watched (State C D) C}
    (reach : (freeWait.watch (machine C D)).ReachableWhen
      (fun w e => Undisturbed w.state e) w) {c : C} {client : Client} {call : Call}
    (alive : w.state.clients c = some client) (waits : client.phase = .waitFree call)
    (asleep : w.notified c = false) :
    w.state.shm.hasRequest = true ∧ ∀ e v, e.client ≠ some c → ¬ e.Repairs w.state →
      (freeWait.watch (machine C D)).next w e = some v →
      (v.state.shm.hasRequest = false ∧ v.notified c = false ↔
        e.abandons w.state ≠ none ∨ e.LeavesFree) ∧
      (v.notified c = false → ∀ u, (freeWait.watch (machine C D)).Before
        (fun _ _ => True) (fun _ e => e.client = some c ∨ e.completes = true) v u →
        u.notified c = false ∧ u.state.clients c = some client) := by
  have taken : w.state.shm.hasRequest = true := by
    by_contra free
    rw [Bool.not_eq_true] at free
    have reached := freeWait_kept.notified reach ⟨client, call, alive, waits⟩ free
    exact Bool.false_ne_true (asleep.symm.trans reached)
  refine ⟨taken, fun e v other regular stepped => ⟨?_, ?_⟩⟩
  · obtain ⟨moved, notified⟩ := Monitor.watch_next stepped
    have reached : v.notified c = e.completes := by
      rw [notified c, if_neg (show freeWait.acts e ≠ some c from other), asleep]
      rfl
    by_cases inside : e.DiesInside
    · obtain ⟨left, stays, silent⟩ := next_diesInside inside moved
      simp [left, stays, reached, silent]
    · constructor
      · rintro ⟨free, still⟩
        rcases (next_tenure inside moved).frees taken free with (gone | repairs) | ends
        · exact .inl gone
        · exact absurd repairs regular
        · exact nomatch still.symm.trans (reached.trans ends)
      · intro gone
        obtain ⟨free, silent⟩ := next_resets
          (.inl (gone.resolve_right fun leaves => inside leaves.inside)) moved
        exact ⟨free, reached.trans silent⟩
  · intro still u path
    refine path.kept (fun u => u.notified c = false ∧ u.state.clients c = some client) ?_
      ⟨still, ((next_parties (Monitor.watch_next stepped).1).clients c other).trans alive⟩
    rintro u e u' ⟨quiet, here⟩ _ going stepped
    rw [not_or, Bool.not_eq_true] at going
    exact ⟨Monitor.watch_quiet stepped quiet going.2,
      ((next_parties (Monitor.watch_next stepped).1).clients c going.1).trans here⟩

end

theorem nobody_sleeps_through_once : ∃ w : Watched (State (Fin 1) (Fin 2)) (Fin 2 ⊕ Fin 1),
    w.state.drivers 1 = .waiting ∧ w.notified (.inl 1) = true ∧
    (∀ d, w.state.drivers d = .waiting → w.notified (.inl d) = false →
      w.state.shm.hasRequest = false) ∧
    ∀ c client call ticket, w.state.clients c = some client →
      client.phase = .waitResponse call ticket → w.notified (.inr c) = false →
      w.state.shm.hasResponse = false := by
  obtain ⟨w, reach, reached⟩ := Machine.reachable_of_check
    (channel.watch (machine (Fin 1) (Fin 2))) (fun _ e => ¬ e.DiesInside)
    (s := ⟨⟨.init, fun _ => none, fun _ => .idle, [], [], []⟩, fun _ => false⟩) ⟨rfl, rfl⟩
    [.connect 0 100, .serviceLoop 0 true false, .serviceLoop 1 true false,
      .call 0 (.ofByte 1) false false, .loopWake 0 .ok true false]
    (fun w => decide (w.state.drivers 1 = .waiting ∧ w.notified (.inl 1) = true))
    (by decide +kernel)
  obtain ⟨waiting, notified⟩ := of_decide_eq_true reached
  exact ⟨w, waiting, notified, nobody_sleeps_through reach⟩

/-- A second client waits for the slot of a pending call, and that call gives up. -/
theorem free_slot_sleeper_stranded : ∃ w v : Watched (State (Fin 2) Unit) (Fin 2),
    w.state.shm.hasRequest = true ∧ v.notified 1 = false ∧
    (v.state.shm.hasRequest = false ∧ v.notified 1 = false ↔
      Event.abandons w.state (.responseWake 0 .timedOut false) ≠ none ∨
      Event.LeavesFree (.responseWake 0 .timedOut false : Event (Fin 2) Unit)) := by
  obtain ⟨w, reach, sleeps⟩ := Machine.reachable_of_check
    (freeWait.watch (machine (Fin 2) Unit)) (fun w e => Undisturbed w.state e)
    (s := ⟨⟨.init, fun _ => none, fun _ => .idle, [], [], []⟩, fun _ => false⟩) ⟨rfl, rfl⟩
    [.connect 0 100, .connect 1 101, .call 0 (.ofByte 1) false false,
      .call 1 (.ofByte 2) false false]
    (fun w => decide (w.state.clients 1 = some ⟨101, 0, .waitFree (.ofByte 2)⟩ ∧
      w.notified 1 = false ∧ ((freeWait.watch (machine (Fin 2) Unit)).next w
        (.responseWake 0 .timedOut false)).map (fun v => v.notified 1) = some false))
    (by decide +kernel)
  obtain ⟨alive, asleep, gives⟩ := of_decide_eq_true sleeps
  obtain ⟨v, stepped, still⟩ := Option.map_eq_some_iff.mp gives
  obtain ⟨taken, others⟩ := free_slot_sleeper reach alive rfl asleep
  exact ⟨w, v, taken, still, (others _ v (by decide) (fun repairs => repairs.1) stepped).1⟩

end ComIpc.Service
