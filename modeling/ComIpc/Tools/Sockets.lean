import ComIpc.Semantics.Streams
import ComIpc.Semantics.Transfers
import ComIpc.Types

/-! `send_all` and `recv_all`, with the kernel and the signal handler around them.

The kernel splits a transfer as it likes, and the handler may clear `running` at any test.
-/

set_option autoImplicit false

namespace ComIpc.Tools.Socket

open Semantics

section
variable (env : Transfers)

/-- The loop of `send_all`: its result, and what has gone to the peer. -/
def sendLoop (data : Bytes) (size round total : Nat) (wire : Bytes) : Bool × Bytes :=
  if _more : total < size ∧ env.running round = true then
    let sent := env.amount round (size - total)
    if _failed : sent ≤ 0 then (false, wire)
    else sendLoop data size (round + 1) (total + sent.toNat)
      (wire ++ (data.drop total).take sent.toNat)
  else (true, wire)
  termination_by size - total
  decreasing_by
    omega

def sendAll (data : Bytes) : Bool × Bytes := sendLoop env data data.length 0 0 []

section
-- The bytes that arrive, one after the other; those behind the end are never received.
variable (incoming : Nat → UInt8)

def arrived (start count : Nat) : Bytes := (List.range' start count).map incoming

/-- The loop of `recv_all`: its result, how many bytes it has taken, and the buffer. -/
def recvLoop (size round total : Nat) (buffer : Bytes) : Bool × Nat × Bytes :=
  if _more : total < size ∧ env.running round = true then
    let r := env.amount round (size - total)
    if _failed : r ≤ 0 then (false, total, buffer)
    else recvLoop size (round + 1) (total + r.toNat)
      (buffer.take total ++ arrived incoming total r.toNat ++ buffer.drop (total + r.toNat))
  else (true, total, buffer)
  termination_by size - total
  decreasing_by
    omega

def recvAll (buffer : Bytes) : Bool × Nat × Bytes :=
  recvLoop env incoming buffer.length 0 0 buffer

end

theorem sendLoop_eq (data : Bytes) (size round total : Nat) :
    sendLoop env data size round total (data.take total) =
      ((env.loop size round total).1, data.take (env.loop size round total).2) := by
  induction round, total using Transfers.loop.induct env size with
  | case1 round total more failed =>
    rw [env.loop_failed more failed, sendLoop, dif_pos more]
    exact dif_pos failed
  | case2 round total more failed ih =>
    rw [env.loop_more more failed, ← ih, sendLoop, dif_pos more, List.take_add]
    exact dif_neg failed
  | case3 round total more =>
    rw [env.loop_done more, sendLoop, dif_neg more]

theorem sendAll_eq (data : Bytes) : sendAll env data =
    ((env.loop data.length 0 0).1, data.take (env.loop data.length 0 0).2) :=
  sendLoop_eq env data data.length 0 0

theorem sendAll_cleared (cleared : ∀ round, env.running round = false) (data : Bytes) :
    sendAll env data = (true, []) := by
  rw [sendAll_eq, env.loop_cleared cleared, List.take_zero]

theorem sendAll_unstopped (running : ∀ round, env.running round = true)
    (positive : ∀ round, 0 < env.answer round) (data : Bytes) :
    sendAll env data = (true, data) := by
  rw [sendAll_eq, env.loop_unstopped running positive 0 (Nat.zero_le _), List.take_length]

theorem sendAll_cases (data : Bytes) : sendAll env data = (true, data) ∨
    (sendAll env data).2 <+: data ∧
      ((sendAll env data).1 = false ∨ ∃ round, env.running round = false) := by
  have front := List.take_prefix (env.loop data.length 0 0).2 data
  have bounds := env.loop_bounds 0 (Nat.zero_le data.length)
  rw [sendAll_eq]
  cases result : (env.loop data.length 0 0).1 with
  | false => exact .inr ⟨front, .inl rfl⟩
  | true =>
    rcases Nat.lt_or_eq_of_le bounds.2.1 with short | whole
    · have reached : 0 = min (env.moved 0) data.length := (Nat.zero_min _).symm
      obtain ⟨stop, _, _, _, cleared⟩ :=
        (env.loop_partial_iff reached fun _ early => absurd early (Nat.not_lt_zero _)).mp
          ⟨result, short⟩
      exact .inr ⟨front, .inr ⟨stop, cleared⟩⟩
    · rw [whole, List.take_length]
      exact .inl rfl

theorem arrived_add (incoming : Nat → UInt8) (first second : Nat) :
    arrived incoming 0 (first + second) =
      arrived incoming 0 first ++ arrived incoming first second := by
  simp [arrived, ← List.range'_append]

theorem recvLoop_eq (incoming : Nat → UInt8) (buffer : Bytes) (round : Nat) {total : Nat}
    (inside : total ≤ buffer.length) :
    recvLoop env incoming buffer.length round total
        (arrived incoming 0 total ++ buffer.drop total) =
      ((env.loop buffer.length round total).1, (env.loop buffer.length round total).2,
        arrived incoming 0 (env.loop buffer.length round total).2 ++
          buffer.drop (env.loop buffer.length round total).2) := by
  induction round, total using Transfers.loop.induct env buffer.length with
  | case1 round total more failed =>
    rw [env.loop_failed more failed, recvLoop, dif_pos more]
    exact dif_pos failed
  | case2 round total more failed ih =>
    have moved : total + (env.amount round (buffer.length - total)).toNat ≤ buffer.length := by
      unfold Transfers.amount
      omega
    have front : (arrived incoming 0 total).length = total := by simp [arrived]
    -- the received bytes go behind those that are there and leave the rest of the buffer alone
    have rest : (arrived incoming 0 total ++ buffer.drop total).drop
        (total + (env.amount round (buffer.length - total)).toNat) =
        buffer.drop (total + (env.amount round (buffer.length - total)).toNat) := by
      rw [← List.drop_drop, List.drop_left' front, List.drop_drop]
    have front' : (arrived incoming 0 total ++ buffer.drop total).take total =
        arrived incoming 0 total := List.take_left' front
    rw [env.loop_more more failed, ← ih moved, arrived_add, recvLoop, dif_pos more, front', ← rest]
    exact dif_neg failed
  | case3 round total more =>
    rw [env.loop_done more, recvLoop, dif_neg more]

theorem recvAll_eq (incoming : Nat → UInt8) (buffer : Bytes) :
    recvAll env incoming buffer =
      ((env.loop buffer.length 0 0).1, (env.loop buffer.length 0 0).2,
        arrived incoming 0 (env.loop buffer.length 0 0).2 ++
          buffer.drop (env.loop buffer.length 0 0).2) :=
  recvLoop_eq env incoming buffer 0 (Nat.zero_le buffer.length)

/-- When nobody clears the flag, a stream that the peer closes is received as it is, however the
kernel splits it. -/
theorem recvAll_stream (stream buffer : Bytes) (serves : env.Serves stream.length) :
    recvAll env (fun i => stream.getD i 0) buffer =
      ((Semantics.recvAll stream buffer buffer.length).2.2, min buffer.length stream.length,
        (Semantics.recvAll stream buffer buffer.length).1) := by
  have front : arrived (fun i => stream.getD i 0) 0 (min buffer.length stream.length) =
      stream.take buffer.length := by
    apply List.ext_getElem
    · simp [arrived]
    · intro i here there
      simp only [List.length_take] at there
      simp [arrived, show i < stream.length by omega]
  rw [recvAll_eq, env.loop_serves serves (Nat.zero_min _).symm, front, Semantics.recvAll]

structure SendsWhole (data : Bytes) : Prop where
  inOrder : (sendAll env data).2 <+: data
  whole : (sendAll env data).1 = true ↔ (sendAll env data).2 = data

structure ReceivesWhole (incoming : Nat → UInt8) (buffer : Bytes) : Prop where
  inOrder : (recvAll env incoming buffer).2.2 =
    arrived incoming 0 (recvAll env incoming buffer).2.1 ++
      buffer.drop (recvAll env incoming buffer).2.1
  bound : (recvAll env incoming buffer).2.1 ≤ buffer.length
  whole : (recvAll env incoming buffer).1 = true ↔
    (recvAll env incoming buffer).2.1 = buffer.length

theorem sendsWhole_iff (data : Bytes) :
    SendsWhole env data ↔ env.Undisturbed data.length := by
  have inside := (env.loop_bounds 0 (Nat.zero_le data.length)).2.1
  have all : data.take (env.loop data.length 0 0).2 = data ↔
      (env.loop data.length 0 0).2 = data.length := by
    constructor
    · intro same
      have length := congrArg List.length same
      rw [List.length_take] at length
      omega
    · intro same
      rw [same, List.take_length]
  rw [← env.loop_whole_iff, ← all]
  constructor
  · intro sends
    simpa only [sendAll_eq] using sends.whole
  · intro whole
    constructor
    · rw [sendAll_eq]
      exact List.take_prefix _ _
    · simpa only [sendAll_eq] using whole

theorem receivesWhole_iff (incoming : Nat → UInt8) (buffer : Bytes) :
    ReceivesWhole env incoming buffer ↔ env.Undisturbed buffer.length := by
  rw [← env.loop_whole_iff]
  constructor
  · intro receives
    simpa only [recvAll_eq] using receives.whole
  · intro whole
    constructor
    · rw [recvAll_eq]
    · rw [recvAll_eq]
      exact (env.loop_bounds 0 (Nat.zero_le buffer.length)).2.1
    · simpa only [recvAll_eq] using whole

/-- Both functions report exactly the whole transfers if and only if `running` is not cleared
between two partial ones. -/
theorem transfers_whole_iff (data : Bytes) (incoming : Nat → UInt8) (buffer : Bytes) :
    (SendsWhole env data ↔ env.Undisturbed data.length) ∧
      (ReceivesWhole env incoming buffer ↔ env.Undisturbed buffer.length) :=
  ⟨sendsWhole_iff env data, receivesWhole_iff env incoming buffer⟩

end

/-- The kernel takes one byte of two, and then the handler clears `running`. -/
theorem partial_send_reported :
    ¬ ∀ (env : Transfers) (data : Bytes), SendsWhole env data := by
  intro claim
  let env : Transfers := ⟨fun round => round = 0, fun _ => 1⟩
  have undisturbed := (sendsWhole_iff env [1, 2]).mp (claim env [1, 2])
  have first : ∀ earlier < 1, 0 < env.answer earlier := fun _ _ => Int.one_pos
  exact absurd (undisturbed 1 first (by decide)) (by decide)

end ComIpc.Tools.Socket
