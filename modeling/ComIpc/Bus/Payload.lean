import ComIpc.Bus.Topics

/-! What a raw receive copies out of the pool.

The header of a publication leads back to the call that made it, and the block it
names holds the payload of that call until somebody writes over it. The pool gives
blocks out again after a wrap, so the second half is conditional.
-/

set_option autoImplicit false

namespace ComIpc.Bus

open Semantics

section
variable {T : Type}

structure Describes (header : MessageHeader) (call : PublishCall T) : Prop where
  stage : call.stage = .enqueued header.seq.toUInt32
  offset : header.poolOffset = call.offset
  size : header.dataSize.toNat = call.data.length
  type : header.type = call.type

theorem Describes.later {header : MessageHeader} {before after : PublishCall T}
    (describes : Describes header before) (later : Later before after) :
    Describes header after where
  stage := later.stage _ describes.stage
  offset := describes.offset.trans later.offset.symm
  size := by rw [describes.size, later.data]
  type := describes.type.trans later.type.symm

variable {K Id : Type}

/-- The header is the one of a call on this topic, which was given the number that the
receive returns, and the payload copied out is the one that was passed to it. -/
def FromCall (calls : K → Option (PublishCall T)) (r : Receipt T K Id) (k : K) : Prop :=
  ∃ call, calls k = some call ∧ call.topic = r.topic ∧ Describes r.header call ∧
    r.payload = call.data

def Faithful (calls : K → Option (PublishCall T)) (r : Receipt T K Id) : Prop :=
  ∀ k, r.source = some k → r.intact = true → FromCall calls r k

theorem Faithful.kept {before after : K → Option (PublishCall T)} {r : Receipt T K Id}
    (faithful : Faithful before r) (keeps : Keeps before after) : Faithful after r := by
  intro k source intact
  obtain ⟨call, found, topic, describes, payload⟩ := faithful k source intact
  obtain ⟨call', found', later⟩ := keeps k call found
  exact ⟨call', found', later.topic.trans topic, describes.later later,
    payload.trans later.data.symm⟩

theorem mem_copyOut {s : State T K Id} {t : T} {i : Id} {phase : Topic.Phase}
    {r : Receipt T K Id} (member : r ∈ s.copyOut t i phase) :
    r.topic = t ∧ r.intact = s.intact r.source ∧
    r.payload = s.pool.data.load r.header.poolOffset.toNat r.header.dataSize.toNat ∧
    ∃ size timeoutMs publication, phase = .holding (.raw size timeoutMs) r.header publication ∧
      MessageHeader.bytes + r.header.dataSize.toNat ≤ size ∧ r.source = s.source t publication := by
  unfold State.copyOut at member
  split at member
  · rename_i size timeoutMs header publication
    split at member
    · rename_i fits
      obtain rfl := List.mem_singleton.mp member
      exact ⟨rfl, rfl, rfl, size, timeoutMs, publication, rfl, fits, rfl⟩
    · contradiction
  · contradiction

/-- A stored payload lies inside the pool and is there until it is written over. -/
structure Stored (pool : MemoryPool) (call : PublishCall T) : Prop where
  inside : call.offset.toNat + call.data.length ≤ poolSize
  bytes : call.stage ≠ .allocated → call.overwritten = false →
    pool.data.load call.offset.toNat call.data.length = call.data

structure Sound (s : State T K Id) : Prop where
  bounded : s.pool.Bounded
  stored : ∀ k call, s.calls k = some call → Stored s.pool call
  aligned : ∀ t, (s.sources t).length = (s.topics t).published.length
  sourced : ∀ (t : T) (n : Nat) (k : K), (s.sources t)[n]? = some (some k) → ∃ call header,
    s.calls k = some call ∧ call.topic = t ∧ (s.topics t).published[n]? = some header ∧
      Describes header call
  receipts : ∀ r ∈ s.receipts, Faithful s.calls r

theorem Stored.grown {before after : MemoryPool} {call : PublishCall T}
    (stored : Stored before call) (same : after.data = before.data) : Stored after call :=
  ⟨stored.inside, fun copied intact => by rw [same, stored.bytes copied intact]⟩

theorem Stored.written {pool : MemoryPool} {calls : K → Option (PublishCall T)}
    (stored : ∀ k call, calls k = some call → Stored pool call) (offset : Nat) (bytes : Bytes)
    {k : K} {call : PublishCall T} (found : damage calls offset bytes.length k = some call) :
    Stored { pool with data := pool.data.store offset bytes } call := by
  obtain ⟨before, was, rfl⟩ := Option.map_eq_some_iff.mp found
  refine ⟨(stored k before was).inside, ?_⟩
  intro copied intact
  simp only [Bool.or_eq_false_iff, decide_eq_false_iff_not, not_and] at intact
  rw [ByteMemory.load_store_apart _ (intact.2 copied)]
  exact (stored k before was).bytes copied intact.1

namespace Sound

theorem quiet {s : State T K Id} (sound : Sound s) {topics : T → Topic.State Id}
    (same : ∀ t, (topics t).published = (s.topics t).published) :
    Sound { s with topics := topics } where
  bounded := sound.bounded
  stored := sound.stored
  aligned := fun t => (sound.aligned t).trans (congrArg List.length (same t).symm)
  sourced := by
    intro t n k source
    obtain ⟨call, header, found, topic, queued, describes⟩ := sound.sourced t n k source
    exact ⟨call, header, found, topic, by rwa [same t], describes⟩
  receipts := sound.receipts

theorem changed {s : State T K Id} (sound : Sound s) {pool : MemoryPool} (loans : List Loan)
    {calls : K → Option (PublishCall T)} (bounded : pool.Bounded)
    (stored : ∀ k call, calls k = some call → Stored pool call) (keeps : Keeps s.calls calls) :
    Sound { s with pool := pool, calls := calls, loans := loans } where
  bounded := bounded
  stored := stored
  aligned := sound.aligned
  sourced := by
    intro t n k source
    obtain ⟨call, header, found, topic, queued, describes⟩ := sound.sourced t n k source
    obtain ⟨call', found', later⟩ := keeps k call found
    exact ⟨call', header, found', later.topic.trans topic, queued, describes.later later⟩
  receipts := fun r member => (sound.receipts r member).kept keeps

theorem published [DecidableEq T] {s : State T K Id} (sound : Sound s) {t : T}
    {after : Topic.State Id} {header : MessageHeader} {source : Option K}
    (appended : after.published = (s.topics t).published ++ [header])
    (described : ∀ k, source = some k →
      ∃ call, s.calls k = some call ∧ call.topic = t ∧ Describes header call) :
    Sound { s with
      topics := Function.update s.topics t after
      sources := Function.update s.sources t (s.sources t ++ [source]) } where
  bounded := sound.bounded
  stored := sound.stored
  aligned := by
    intro other
    by_cases self : other = t
    · subst self
      simp [appended, sound.aligned other]
    · simp [self, sound.aligned other]
  sourced := by
    intro other n k found
    by_cases self : other = t
    · subst self
      simp only [Function.update_self, appended] at found ⊢
      by_cases old : n < (s.sources other).length
      · rw [List.getElem?_append_left old] at found
        obtain ⟨call, header, known, topic, queued, describes⟩ := sound.sourced other n k found
        refine ⟨call, header, known, topic, ?_, describes⟩
        rw [List.getElem?_append_left (sound.aligned other ▸ old), queued]
      · have bound := (List.getElem?_eq_some_iff.mp found).1
        have last : n = (s.sources other).length := by simp at bound; omega
        subst last
        simp only [List.getElem?_concat_length, Option.some.injEq] at found
        obtain ⟨call, known, topic, describes⟩ := described k found
        refine ⟨call, header, known, topic, ?_, describes⟩
        rw [sound.aligned other, List.getElem?_concat_length]
    · simp only [Function.update_of_ne self] at found ⊢
      exact sound.sourced other n k found
  receipts := sound.receipts

theorem described {s : State T K Id} (sound : Sound s) {t : T} {publication : Nat}
    {header : MessageHeader} (held : Topic.nth (s.topics t).published publication = some header)
    {k : K} (source : s.source t publication = some k) :
    ∃ call, s.calls k = some call ∧ call.topic = t ∧ Describes header call := by
  have counted : publication ≠ 0 := Nat.ne_of_gt (Topic.nth_bound held).1
  simp only [Topic.nth, counted, if_false] at held
  simp only [State.source, Topic.nth, counted, if_false, Option.join_eq_some_iff] at source
  obtain ⟨call, header', found, topic, queued, describes⟩ := sound.sourced t _ k source
  obtain rfl := Option.some.inj (held.symm.trans queued)
  exact ⟨call, found, topic, describes⟩

theorem copied {s : State T K Id} (sound : Sound s) {t : T} {i : Id} {sub : Topic.Subscriber}
    (follows : Topic.Follows (s.topics t).published sub) {r : Receipt T K Id}
    (member : r ∈ s.copyOut t i sub.phase) {k : K} (source : r.source = some k) :
    ∃ call, s.calls k = some call ∧ call.topic = t ∧ Describes r.header call := by
  obtain ⟨_, _, _, _, _, publication, phase, _, read⟩ := mem_copyOut member
  exact sound.described (follows.holding _ r.header publication phase).2 (read ▸ source)

theorem copyOut {s : State T K Id} (sound : Sound s) {t : T} {i : Id} {sub : Topic.Subscriber}
    (follows : Topic.Follows (s.topics t).published sub) :
    ∀ r ∈ s.copyOut t i sub.phase, Faithful s.calls r := by
  intro r member k source intact
  obtain ⟨topic, mark, payload, _⟩ := mem_copyOut member
  obtain ⟨call, found, about, describes⟩ := sound.copied follows member source
  refine ⟨call, found, about.trans topic.symm, describes, ?_⟩
  have clean : call.overwritten = false := by
    rw [mark, source] at intact
    simpa [State.intact, found] using intact
  have stored : call.stage ≠ .allocated := by
    rw [describes.stage]
    exact Stage.noConfusion
  rw [payload, describes.offset, describes.size]
  exact (sound.stored k call found).bytes stored clean

end Sound

section
variable [DecidableEq T]

theorem update_published {topics : T → Topic.State Id} {t : T} {after : Topic.State Id}
    (same : after.published = (topics t).published) (other : T) :
    (Function.update topics t after other).published = (topics other).published := by
  by_cases self : other = t
  · rw [self, Function.update_self, same]
  · rw [Function.update_of_ne self]

variable [DecidableEq Id]

theorem Sound.inTopic {s : State T K Id} (sound : Sound s) {t : T} {e : Topic.Event Id}
    {after : Topic.State Id} (stepped : Topic.next (s.topics t) e = some after)
    (quiet : Topic.Quiet e) : Sound { s with topics := Function.update s.topics t after } :=
  sound.quiet (update_published (Topic.next_quiet quiet stepped))

theorem Sound.onTopic {s s' : State T K Id} (sound : Sound s) {t : T} {e : Topic.Event Id}
    (taken : s.onTopic t e = some s') (quiet : Topic.Quiet e) : Sound s' := by
  obtain ⟨after, stepped, rfl⟩ := onTopic_eq taken
  exact sound.inTopic stepped quiet

end

theorem Sound.allocate [DecidableEq K] {s s' : State T K Id} (sound : Sound s) {k : K} {t : T}
    {type : MessageType} {data : Bytes} (taken : s.allocate k t type data = some s') :
    Sound s' := by
  obtain ⟨absent, pool, offset, done, rfl⟩ := allocate_eq taken
  obtain ⟨inside, bounded, same⟩ := MemoryPool.allocate_fits sound.bounded done
  refine sound.changed _ bounded ?_ ?_
  · intro other call found
    by_cases self : other = k
    · subst self
      simp only [Function.update_self, Option.some.injEq] at found
      subst found
      exact ⟨inside, fun copied => absurd rfl copied⟩
    · rw [Function.update_of_ne self] at found
      exact (sound.stored other call found).grown same
  · exact (Keeps.refl s.calls).update fun call found => by simp [absent] at found

theorem Sound.copyIn [DecidableEq K] {s s' : State T K Id} (sound : Sound s) {k : K}
    (taken : s.copyIn k = some s') : Sound s' := by
  obtain ⟨call, found, stage, rfl⟩ := copyIn_eq taken
  -- the call's own block holds its payload, the others keep theirs or are marked
  refine sound.changed _ sound.bounded ?_ ?_
  · intro other call' found'
    by_cases self : other = k
    · subst self
      simp only [Function.update_self, Option.some.injEq] at found'
      subst found'
      exact ⟨(sound.stored other call found).inside, fun _ _ => ByteMemory.load_store _ _ _⟩
    · rw [Function.update_of_ne self] at found'
      exact Stored.written sound.stored _ _ found'
  · refine (Keeps.damage s.calls _ _).update fun call' found' => ?_
    obtain rfl := Option.some.inj (found.symm.trans found')
    exact ⟨rfl, rfl, rfl, rfl, fun seq queued => by simp [stage] at queued⟩

theorem Sound.loanRaw {s s' : State T K Id} (sound : Sound s) {size : Nat}
    (taken : s.loanRaw size = some s') : Sound s' := by
  simp only [State.loanRaw, Option.bind_eq_bind, Option.bind_eq_some_iff,
    Option.some.injEq] at taken
  obtain ⟨⟨pool, offset⟩, done, rfl⟩ := taken
  obtain ⟨_, bounded, same⟩ := MemoryPool.allocate_fits sound.bounded done
  exact sound.changed _ bounded (fun k call found => (sound.stored k call found).grown same)
    (.refl s.calls)

theorem Sound.writeLoaned {s s' : State T K Id} (sound : Sound s) {offset : Nat} {bytes : Bytes}
    (taken : s.writeLoaned offset bytes = some s') : Sound s' := by
  simp only [State.writeLoaned, Option.bind_eq_bind, Option.bind_eq_some_iff,
    Option.some.injEq] at taken
  obtain ⟨_, _, rfl⟩ := taken
  exact sound.changed _ sound.bounded
    (fun _ _ found => Stored.written sound.stored offset bytes found) (.damage s.calls _ _)

variable [DecidableEq T] [DecidableEq Id]

theorem Sound.enqueue [DecidableEq K] {s s' : State T K Id} (sound : Sound s) {k : K} {now : Int64}
    (taken : s.enqueue k now = some s') : Sound s' := by
  have keeps := (next_calls (e := .enqueue k now) taken).keeps
  obtain ⟨call, after, found, stage, stepped, rfl⟩ := enqueue_eq taken
  have inside := (sound.stored k call found).inside
  -- what the pool could allocate is not changed by the narrowing to 32 bits
  have small : call.data.length < 2 ^ 32 :=
    Nat.lt_of_le_of_lt (Nat.le_of_add_left_le inside) (by decide)
  have stored : ∀ other call', Function.update s.calls k (some { call with
      stage := .enqueued ((s.topics call.topic).shm.seq + 1) }) other = some call' →
      Stored s.pool call' := by
    intro other call' found'
    by_cases self : other = k
    · subst self
      simp only [Function.update_self, Option.some.injEq] at found'
      subst found'
      exact ⟨inside, fun _ => (sound.stored other call found).bytes (by simp [stage])⟩
    · rw [Function.update_of_ne self] at found'
      exact sound.stored other call' found'
  have moved := sound.changed s.loans sound.bounded stored keeps
  refine moved.published (Topic.next_publish (.inl stepped)).1 ?_
  intro other named
  obtain rfl := Option.some.inj named
  refine ⟨_, Function.update_self _ _ _, rfl, ?_, rfl, ?_, rfl⟩
  · simp only [Topic.Publication.header, UInt32.toUInt32_toInt32]
  · simp only [Topic.Publication.header, UInt32.toNat_ofNat', Nat.mod_eq_of_lt small]

theorem Sound.publishLoaned {s s' : State T K Id} (sound : Sound s) {t : T} {type : MessageType}
    {position size : Nat} {now : Int64}
    (taken : s.publishLoaned t type position size now = some s') : Sound s' := by
  obtain ⟨_, _, _, stepped, rfl⟩ := publishLoaned_eq taken
  exact sound.published (Topic.next_publish (.inr stepped)).1 fun _ named => nomatch named

theorem Sound.finish {s s' : State T K Id} (sound : Sound s)
    (consistent : ∀ t, Topic.Consistent (s.topics t)) {t : T} {i : Id}
    (taken : s.finish t i = some s') : Sound s' := by
  obtain ⟨sub, after, alive, stepped, rfl⟩ := finish_eq taken
  refine { sound.inTopic stepped trivial with receipts := ?_ }
  intro r member
  rcases List.mem_append.mp member with old | new
  · exact sound.receipts r old
  · exact sound.copyOut ((consistent t).follows i sub alive) r new

variable [DecidableEq K]

theorem Sound.next {s s' : State T K Id} {e : Event T K Id} (sound : Sound s)
    (consistent : ∀ t, Topic.Consistent (s.topics t)) (taken : next s e = some s') : Sound s' := by
  cases e with
  | allocate => exact sound.allocate taken
  | copyIn => exact sound.copyIn taken
  | enqueue => exact sound.enqueue taken
  | loanRaw => exact sound.loanRaw taken
  | writeLoaned => exact sound.writeLoaned taken
  | publishLoaned => exact sound.publishLoaned taken
  | finish => exact sound.finish consistent taken
  | attach | construct | destroy | receive | wake => exact sound.onTopic taken trivial

theorem reachable_sound {s : State T K Id} (reach : (machine T K Id).Reachable s) : Sound s := by
  refine reach.invariant_of Sound ?_
    fun s e s' reach sound _ taken => sound.next (reachable_consistent reach) taken
  rintro s rfl
  constructor <;> simp [State.init, MemoryPool.init, MemoryPool.Bounded]

/-- Whatever a raw receive copies out of a block that nobody wrote over in the meantime is
the payload that was passed to the call whose number it returns. -/
theorem payload_of_publisher {s : State T K Id} (reach : (machine T K Id).Reachable s) :
    ∀ r ∈ s.receipts, Faithful s.calls r :=
  (reachable_sound reach).receipts

end

theorem payload_of_publisher_two :
    ∃ s : State Bool Nat Nat,
      s.receipts.map (fun r => (r.payload, r.intact)) = [([1, 2], true), ([3], true)] ∧
      ∀ r ∈ s.receipts, Faithful s.calls r := by
  obtain ⟨s, reach, both⟩ := Machine.reachable_of_check (machine Bool Nat Nat) (fun _ _ => True) rfl
    [.construct false 0, .construct true 0, .allocate 0 false .custom [1, 2],
      .allocate 1 true .pose [3], .copyIn 1, .copyIn 0, .enqueue 0 5, .enqueue 1 5,
      .receive false 0 (.raw 64 0) false, .receive true 0 (.raw 64 0) false,
      .finish false 0, .finish true 0]
    (fun s => decide (s.receipts.map (fun r => (r.payload, r.intact)) =
      [([1, 2], true), ([3], true)])) (by decide +kernel)
  exact ⟨s, of_decide_eq_true both, payload_of_publisher reach⟩

def headerTaken : State Bool Nat Nat :=
  ((machine Bool Nat Nat).run .init [.construct false 0, .allocate 0 false .custom [1], .copyIn 0,
    .enqueue 0 5, .receive false 0 (.raw 64 0) false]).getD .init

-- One large block stands for a lap of small ones, so that the run can be evaluated.

def lap : Bytes := List.replicate (poolSize - 8) 0

def lapped : State Bool Nat Nat :=
  { headerTaken with
    pool := { headerTaken.pool with headOffset := UInt32.ofNat poolSize }
    calls := Function.update headerTaken.calls 1
      (some ⟨true, .custom, lap, 8, .allocated, false⟩) }

theorem allocate_lap :
    (machine Bool Nat Nat).next headerTaken (.allocate 1 true .custom lap) = some lapped := by
  have length : lap.length = poolSize - 8 := List.length_replicate
  simp only [machine, next, State.allocate, length]
  rfl

/-- While the payload waits to be copied out, traffic on the other topic laps the pool and
its next message is copied over the block. -/
theorem block_reused :
    ¬ ∀ s : State Bool Nat Nat, (machine Bool Nat Nat).Reachable s →
      ∀ r ∈ s.receipts, ∀ k, r.source = some k → FromCall s.calls r k := by
  intro claim
  have start : (machine Bool Nat Nat).Reachable .init := .start rfl
  have taken : (machine Bool Nat Nat).Reachable headerTaken := start.getD _ _ (by decide +kernel)
  have reach := taken.step trivial allocate_lap
  obtain ⟨s, reach, wrong⟩ := reach.check
    [.allocate 2 true .custom [2], .copyIn 2, .finish false 0]
    (fun s => decide (s.receipts.map (fun r => (r.source, r.payload)) = [(some 0, [2])] ∧
      (s.calls 0).map PublishCall.data = some [1])) (by decide +kernel)
  obtain ⟨copied, sent⟩ := of_decide_eq_true wrong
  obtain ⟨r, only, fields⟩ := List.map_eq_singleton_iff.mp copied
  obtain ⟨source, payload⟩ := Prod.mk.inj fields
  obtain ⟨call, found, _, _, same⟩ := claim s reach r (only ▸ List.mem_singleton_self r) 0 source
  rw [found, Option.map_some, Option.some.injEq] at sent
  rw [payload, sent] at same
  exact absurd same (by decide)

end ComIpc.Bus
