import ComIpc.Bus.Payload

/-! Which call a publication came from.

A call that has enqueued its header is on record for its topic, and once.
-/

set_option autoImplicit false

namespace ComIpc.Bus

open Semantics

section
variable {T K Id : Type}

/-- The calls that have enqueued their header, each once. -/
structure Placed [DecidableEq K] (s : State T K Id) : Prop where
  found : ∀ k call seq, s.calls k = some call → call.stage = .enqueued seq →
    some k ∈ s.sources call.topic
  once : ∀ t k, (s.sources t).count (some k) ≤ 1

variable [DecidableEq K]

theorem Placed.damaged {s : State T K Id} (placed : Placed s) {offset size : Nat} {k : K}
    {call : PublishCall T} {seq : UInt32} (known : damage s.calls offset size k = some call)
    (queued : call.stage = .enqueued seq) : some k ∈ s.sources call.topic := by
  obtain ⟨before, was, rfl⟩ := Option.map_eq_some_iff.mp known
  exact placed.found k before seq was queued

theorem Sound.count_zero {s : State T K Id} (sound : Sound s) {k : K} {call : PublishCall T}
    (known : s.calls k = some call) (stage : call.stage = .copied) (t : T) :
    (s.sources t).count (some k) = 0 := by
  refine List.count_eq_zero.mpr fun member => ?_
  obtain ⟨n, source⟩ := List.mem_iff_getElem?.mp member
  obtain ⟨call', header, known', _, _, describes⟩ := sound.sourced t n k source
  obtain rfl := Option.some.inj (known.symm.trans known')
  exact Stage.noConfusion (stage.symm.trans describes.stage)

theorem recorded_update {sources : T → List (Option K)} {calls : K → Option (PublishCall T)}
    {k : K} {after : PublishCall T} (earlier : ∀ seq, after.stage ≠ .enqueued seq)
    (found : ∀ other call seq, calls other = some call → call.stage = .enqueued seq →
      some other ∈ sources call.topic) :
    ∀ other call seq, Function.update calls k (some after) other = some call →
      call.stage = .enqueued seq → some other ∈ sources call.topic := by
  intro other call seq known queued
  by_cases self : other = k
  · subst self
    simp only [Function.update_self, Option.some.injEq] at known
    exact absurd (known ▸ queued) (earlier seq)
  · rw [Function.update_of_ne self] at known
    exact found other call seq known queued

variable [DecidableEq T] [DecidableEq Id]

theorem Placed.enqueue {s s' : State T K Id} (sound : Sound s) (placed : Placed s) {k : K}
    {now : Int64} (taken : s.enqueue k now = some s') : Placed s' := by
  obtain ⟨call, after, known, stage, _, rfl⟩ := enqueue_eq taken
  constructor
  · intro other call' seq known' queued
    by_cases self : other = k
    · subst self
      simp only [Function.update_self, Option.some.injEq] at known'
      subst known'
      simp
    · simp only [Function.update_of_ne self] at known'
      have before := placed.found other call' seq known' queued
      by_cases topic : call'.topic = call.topic
      · simpa [topic] using .inl (topic ▸ before)
      · simpa [topic] using before
  · intro t other
    by_cases topic : t = call.topic
    · subst topic
      simp only [Function.update_self, List.count_append]
      -- before its enqueue step the call was not on record anywhere
      by_cases self : other = k
      · subst self
        simp [sound.count_zero known stage]
      · simpa [List.count_singleton, Ne.symm self] using placed.once call.topic other
    · simp only [Function.update_of_ne topic]
      exact placed.once t other

theorem Placed.next {s s' : State T K Id} {e : Event T K Id} (sound : Sound s)
    (placed : Placed s) (taken : next s e = some s') : Placed s' := by
  cases e with
  | allocate k t type data =>
    obtain ⟨absent, _, _, _, rfl⟩ := allocate_eq taken
    exact ⟨recorded_update (fun _ => Stage.noConfusion) placed.found, placed.once⟩
  | copyIn k =>
    obtain ⟨_, _, _, rfl⟩ := copyIn_eq taken
    refine ⟨recorded_update (fun _ => Stage.noConfusion) ?_, placed.once⟩
    exact fun other call seq known queued => placed.damaged known queued
  | enqueue => exact placed.enqueue sound taken
  | writeLoaned offset bytes =>
    simp only [Bus.next, State.writeLoaned, Option.bind_eq_bind, Option.bind_eq_some_iff,
      Option.some.injEq] at taken
    obtain ⟨_, _, rfl⟩ := taken
    exact ⟨fun other call seq known queued => placed.damaged known queued, placed.once⟩
  | publishLoaned t type position size now =>
    obtain ⟨_, _, _, _, rfl⟩ := publishLoaned_eq taken
    constructor
    · intro other call seq known queued
      have before := placed.found other call seq known queued
      by_cases topic : call.topic = t
      · simpa [topic] using topic ▸ before
      · simpa [topic] using before
    · intro u other
      by_cases topic : u = t
      · subst topic
        simpa [List.count_append] using placed.once u other
      · simp only [Function.update_of_ne topic]
        exact placed.once u other
  | loanRaw size =>
    simp only [Bus.next, State.loanRaw, Option.bind_eq_bind, Option.bind_eq_some_iff,
      Option.some.injEq] at taken
    obtain ⟨_, _, rfl⟩ := taken
    exact ⟨placed.found, placed.once⟩
  | finish =>
    obtain ⟨_, _, _, _, rfl⟩ := finish_eq taken
    exact ⟨placed.found, placed.once⟩
  | attach | construct | destroy | receive | wake =>
    obtain ⟨_, _, rfl⟩ := onTopic_eq taken
    exact ⟨placed.found, placed.once⟩

theorem reachable_placed {s : State T K Id} (reach : (machine T K Id).Reachable s) :
    Placed s := by
  refine reach.invariant_of Placed ?_
    fun s e s' reach placed _ taken => placed.next (reachable_sound reach) taken
  rintro s rfl
  constructor <;> simp [State.init]

end

end ComIpc.Bus
