import ComIpc.Action.Goals
import ComIpc.Action.Numbering
import ComIpc.Action.Trace
import ComIpc.Bus.Receipts
import ComIpc.Semantics.Until

/-! What reaches the other side of an action.

A loop reads the message of a call when its receive has taken the header; the bytes are
still in the pool then and are copied out when the receive finishes. The senders admit
256 bytes of payload, the receive buffers 256 bytes of message, the fixed part of its
header included.
-/

set_option autoImplicit false

namespace ComIpc.Action

open Semantics

section
variable {C : Type}

/-- The call whose header the receive of a loop has taken. -/
def State.reading (s : State C) (channel : Channel) (reader : Reader C) : Option Nat := do
  let sub ← (s.bus.topics channel).subscribers reader
  match sub.phase with
  | .holding call _ publication =>
    if call = loopReceive then s.bus.source channel publication else none
  | _ => none

def State.block (s : State C) (k : Nat) : Bytes :=
  match s.bus.calls k with
  | some call => s.bus.pool.data.load call.offset.toNat call.data.length
  | none => []

theorem reading_eq {s : State C} {channel : Channel} {reader : Reader C} {k : Nat}
    (reading : s.reading channel reader = some k) : ∃ sub header publication,
      (s.bus.topics channel).subscribers reader = some sub ∧
      sub.phase = .holding loopReceive header publication ∧
      s.bus.source channel publication = some k := by
  simp only [State.reading, Option.bind_eq_bind, Option.bind_eq_some_iff] at reading
  obtain ⟨sub, alive, source⟩ := reading
  split at source
  · rename_i call header publication held
    split at source
    · rename_i same
      exact ⟨sub, header, publication, alive, same ▸ held, source⟩
    · contradiction
  · contradiction

variable [DecidableEq C]

theorem reading_call {s : State C} (reach : (machine C).Reachable s) {channel : Channel}
    {reader : Reader C} {k : Nat} (reading : s.reading channel reader = some k)
    {purpose : Purpose C} (meant : s.purposes k = some purpose) :
    ∃ sub header publication call, (s.bus.topics channel).subscribers reader = some sub ∧
      sub.phase = .holding loopReceive header publication ∧
      s.bus.source channel publication = some k ∧ s.bus.calls k = some call ∧
      header.type = .custom ∧ header.dataSize.toNat = purpose.message.length ∧
      header.poolOffset = call.offset ∧ call.data = purpose.message ∧
      call.offset.toNat + purpose.message.length ≤ poolSize := by
  obtain ⟨sub, header, publication, alive, held, source⟩ := reading_eq reading
  have onBus := reachable_bus reach
  have sound := Bus.reachable_sound onBus
  obtain ⟨_, found⟩ := ((Bus.reachable_consistent onBus channel).follows reader sub alive).holding
    _ _ _ held
  have positive := (Topic.nth_bound found).1
  have recorded := Option.join_eq_some_iff.mp source
  rw [Topic.nth, if_neg (by omega)] at found recorded
  obtain ⟨call, header', known, _, queued, describes⟩ := sound.sourced channel _ k recorded
  obtain rfl := Option.some.inj (found.symm.trans queued)
  obtain ⟨call', known', _, type, data⟩ := (reachable_noted reach).given k purpose meant
  obtain rfl := Option.some.inj (known.symm.trans known')
  refine ⟨sub, header, publication, call, alive, held, source, known, describes.type.trans type,
    data ▸ describes.size, describes.offset, data, ?_⟩
  exact data ▸ (sound.stored k call known).inside

theorem length_block {s : State C} (reach : (machine C).Reachable s) {k : Nat}
    {purpose : Purpose C} (meant : s.purposes k = some purpose) :
    (s.block k).length = purpose.message.length := by
  obtain ⟨call, known, _, _, data⟩ := (reachable_noted reach).given k purpose meant
  rw [State.block, known]
  exact (ByteMemory.length_load _ _ _).trans (congrArg List.length data)

theorem reading_finish {s : State C} (reach : (machine C).Reachable s) {channel : Channel}
    {reader : Reader C} {k : Nat} (reading : s.reading channel reader = some k)
    {purpose : Purpose C} (meant : s.purposes k = some purpose) :
    ∃ bus, Bus.next s.bus (.finish channel reader) = some bus := by
  obtain ⟨sub, header, publication, call, alive, held, _, _, _, size, offset, _, inside⟩ :=
    reading_call reach reading meant
  rw [← size, ← offset] at inside
  simp only [Bus.next, Bus.State.finish, Bus.State.onTopic, Topic.next, alive, held, Topic.finish,
    if_pos inside, Option.bind_eq_bind, Option.bind_some]
  split <;> exact ⟨_, rfl⟩

theorem reading_copied {s : State C} (reach : (machine C).Reachable s) {channel : Channel}
    {reader : Reader C} {k : Nat} (reading : s.reading channel reader = some k)
    {purpose : Purpose C} (meant : s.purposes k = some purpose)
    (fits : purpose.message.length ≤ maxMsgSize) : ∃ r, s.copied channel reader = some r ∧
      r.source = some k ∧ r.header.type = .custom ∧
      r.header.dataSize.toNat = purpose.message.length ∧ r.payload = s.block k := by
  obtain ⟨sub, header, publication, call, alive, held, source, known, type, size, offset, data,
    _⟩ := reading_call reach reading meant
  have room : MessageHeader.bytes + header.dataSize.toNat ≤ receiveBuffer := by
    rw [size]
    exact Nat.add_le_add_left fits _
  have copied : s.copied channel reader = some ⟨channel, reader, header,
      s.bus.pool.data.load header.poolOffset.toNat header.dataSize.toNat,
      s.bus.source channel publication, s.bus.intact (s.bus.source channel publication)⟩ := by
    simp only [State.copied, alive, Option.bind_eq_bind, Option.bind_some, Bus.State.copyOut,
      held, if_pos room, List.head?_cons]
  refine ⟨_, copied, source, type, size, ?_⟩
  simp only [State.block, known, offset, size, data]

theorem reading_dropped {s : State C} (reach : (machine C).Reachable s) {channel : Channel}
    {reader : Reader C} {k : Nat} (reading : s.reading channel reader = some k)
    {purpose : Purpose C} (meant : s.purposes k = some purpose)
    (long : ¬ purpose.message.length ≤ maxMsgSize) : s.copied channel reader = none := by
  obtain ⟨sub, header, publication, call, alive, held, _, _, _, size, _⟩ :=
    reading_call reach reading meant
  have full : ¬ MessageHeader.bytes + header.dataSize.toNat ≤ receiveBuffer := by
    rw [size]
    exact fun room => long (Nat.le_of_add_le_add_left room)
  simp only [State.copied, alive, Option.bind_eq_bind, Option.bind_some, Bus.State.copyOut, held,
    if_neg full, List.head?_nil]

/-! ### Goals -/

/-- The callback is called with exactly the goal, whatever the other threads do before the
loop takes it out of the queue. -/
def GoalArrives (s : State C) (residue : Bytes) (k : Nat) (goalId : Int32) (goal : Payload) :
    Prop :=
  ∃ t, next s (.finish residue) = some t ∧
    ∀ u, (machine C).Before (fun _ _ => True) (fun _ e => e = .pop) t u →
      ∃ v, next u .pop = some v ∧
        v.server.executions = s.server.executions ++ [⟨goalId, goal.bytes, some k⟩]

/-- The message has room in the receive buffer, and in its block nothing but the time was
written over. -/
structure GoalKept (s : State C) (k : Nat) (goalId : Int32) (goal : Payload) : Prop where
  fits : GoalHeader.fixedSize + goal.bytes.length ≤ maxMsgSize
  block : ∃ timestamp, s.block k = (GoalHeader.ofGoal goalId timestamp goal).image

theorem Step.popping {s t : State C} {e : Event C} (step : Step s e t)
    (popping : s.server.phase = .popping) (other : e ≠ .pop) :
    t.server.phase = .popping ∧ t.server.goalQueue = s.server.goalQueue ∧
      t.server.executions = s.server.executions := by
  cases step with
  | constructed phase | started phase | stopped _ phase | polled _ phase | woken _ _ phase
  | missed _ phase | accepted _ phase | callbackReturned phase =>
    rw [popping] at phase
    contradiction
  | popped => exact absurd rfl other
  | cancelServed => exact ⟨by simpa using popping, by simp, by simp⟩
  | _ => exact ⟨popping, rfl, rfl⟩

theorem next_pop {s : State C} (popping : s.server.phase = .popping) :
    ∃ t, next s .pop = some t ∧ t.server = s.server.pop :=
  ⟨{ s with server := s.server.pop }, by simp [next, popping, guard], rfl⟩

theorem pops_iff {t : State C} (popping : t.server.phase = .popping)
    (executions : List Execution) :
    (∀ u, (machine C).Before (fun _ _ => True) (fun _ e => e = .pop) t u →
      ∃ v, next u .pop = some v ∧ v.server.executions = executions) ↔
      t.server.pop.executions = executions :=
  Server.handed_iff (machine C) State.server (fun _ => next_pop)
    (fun _ _ _ taken => (next_step taken).popping) popping (fun executed => executed = executions)

theorem goal_arrives_iff {s : State C} (reach : (machine C).Reachable s)
    (receiving : s.server.phase = .receiving) {k : Nat}
    (reading : s.reading .goal .server = some k) {c : C} {goalId : Int32} {timestamp : Int64}
    {goal : Payload} (meant : s.purposes k = some (.goal c goalId timestamp goal))
    {residue : Bytes} (local_ : residue.length = GoalHeader.fixedSize + maxMsgSize) :
    GoalArrives s residue k goalId goal ↔ GoalKept s k goalId goal := by
  have empty : s.server.goalQueue.entries = [] := by
    have drained := (Goals.action_drained reach).empty (by simp [receiving])
    exact List.map_eq_nil_iff.mp drained
  have length : (Purpose.goal c goalId timestamp goal).message.length =
      GoalHeader.fixedSize + goal.bytes.length := GoalHeader.length_image _
  have blockLength := (length_block reach meant).trans length
  obtain ⟨bus, finished⟩ := reading_finish reach reading meant
  have onBus : s.onBus (.finish .goal .server) = some { s with bus := bus } := by
    rw [State.onBus, finished, Option.map_some]
  by_cases fits : GoalHeader.fixedSize + goal.bytes.length ≤ maxMsgSize
  · obtain ⟨r, copied, source, type, size, payload⟩ :=
      reading_copied reach reading meant (length ▸ fits)
    have whole : GoalHeader.fixedSize ≤ r.header.dataSize.toNat := by
      rw [size, length]
      exact Nat.le_add_right _ _
    have kept : GoalKept s k goalId goal ↔
        readGoal residue r.payload = some (goalId, goal.bytes) := by
      rw [payload, readGoal_iff local_ blockLength]
      exact ⟨GoalKept.block, fun block => ⟨fits, block⟩⟩
    have pop : (s.server.accept residue r.header r.payload r.source).map
        (fun after => after.pop.executions) =
          (readGoal residue r.payload).map fun read =>
            if read.1 = -1 then s.server.executions
            else s.server.executions ++ [⟨read.1, read.2, r.source⟩] :=
      Server.accept_pop empty type whole r.source
    rw [kept]
    constructor
    · rintro ⟨t, taken, arrives⟩
      cases next_step taken with
      | bus only => cases only
      | missed _ _ _ none_ =>
        rw [none_] at copied
        contradiction
      | accepted _ _ _ copied' accepted =>
        obtain rfl := Option.some.inj (copied.symm.trans copied')
        have handed := (pops_iff (Server.accept_phase accepted) _).mp arrives
        rw [accepted, Option.map_some, handed] at pop
        obtain ⟨⟨number, data⟩, read, same⟩ := Option.map_eq_some_iff.mp pop.symm
        by_cases none_ : number = -1
        · simp [none_] at same
        · simp only [if_neg none_, List.append_cancel_left_eq, List.cons.injEq,
            Execution.mk.injEq, and_true] at same
          rw [read, same.1, same.2.1]
    · intro read
      have natural : goalId ≠ -1 := by
        obtain ⟨_, _, natural, _⟩ := (reachable_counted reach).goals k c goalId timestamp goal meant
        rintro rfl
        contradiction
      rw [read, Option.map_some, if_neg natural, source] at pop
      obtain ⟨server, accepted, handed⟩ := Option.map_eq_some_iff.mp pop
      refine ⟨{ s with bus := bus, server := server }, ?_,
        (pops_iff (Server.accept_phase accepted) _).mpr handed⟩
      simp [next, receiving, guard, onBus, copied, source, accepted]
  · refine iff_of_false ?_ fun kept => fits kept.fits
    rintro ⟨t, taken, arrives⟩
    have dropped := reading_dropped reach reading meant (length ▸ fits)
    cases next_step taken with
    | bus only => cases only
    | accepted _ _ _ copied =>
      rw [dropped] at copied
      contradiction
    | missed =>
      have handed := (pops_iff rfl _).mp arrives
      have nothing := handed.symm.trans (Server.pop_empty empty)
      simp at nothing

end

end ComIpc.Action
