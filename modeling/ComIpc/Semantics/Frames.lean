import Mathlib.Data.List.Basic

/-! Streams of frames.

A framing writes every message as a frame whose end its reader finds by itself. A stream of
frames that breaks off anywhere is read as the messages of the whole frames, and what is
left over is the front of the next one.
-/

set_option autoImplicit false

namespace ComIpc.Semantics

structure Framing (Symbol Message : Type) where
  encode : Message → List Symbol
  /-- The first message of a stream and what comes behind its frame. -/
  decode : List Symbol → Option (Message × List Symbol)
  decode_encode : ∀ message rest, decode (encode message ++ rest) = some (message, rest)
  decode_cut : ∀ message cut, cut < (encode message).length →
    decode ((encode message).take cut) = none
  decode_shrinks : ∀ {stream message rest}, decode stream = some (message, rest) →
    rest.length < stream.length

namespace Framing

variable {Symbol Message : Type} (framing : Framing Symbol Message)

/-- The messages of the whole frames, and what is left over. -/
def readAll (stream : List Symbol) : List Message × List Symbol :=
  match _found : framing.decode stream with
  | none => ([], stream)
  | some (message, rest) =>
    let later := readAll rest
    (message :: later.1, later.2)
  termination_by stream.length
  decreasing_by
    exact framing.decode_shrinks _found

theorem readAll_none {stream : List Symbol} (unread : framing.decode stream = none) :
    framing.readAll stream = ([], stream) := by
  rw [readAll]
  split
  · rfl
  · rename_i message rest found
    rw [unread] at found
    contradiction

theorem readAll_some {stream rest : List Symbol} {message : Message}
    (found : framing.decode stream = some (message, rest)) :
    framing.readAll stream =
      (message :: (framing.readAll rest).1, (framing.readAll rest).2) := by
  rw [readAll]
  split
  · rename_i unread
    rw [unread] at found
    contradiction
  · rename_i other behind same
    rw [found] at same
    cases same
    rfl

theorem readAll_frame (message : Message) (rest : List Symbol) :
    framing.readAll (framing.encode message ++ rest) =
      (message :: (framing.readAll rest).1, (framing.readAll rest).2) :=
  framing.readAll_some (framing.decode_encode message rest)

theorem readAll_nil : framing.readAll [] = ([], []) := by
  cases found : framing.decode [] with
  | none => exact framing.readAll_none found
  | some read =>
    have shorter := framing.decode_shrinks found
    exact absurd shorter (Nat.not_lt_zero _)

/-- What the reader of a stream finds: the first of the messages, and too little of the next. -/
structure ReadsFirst (messages : List Message) (stream : List Symbol) (count : Nat) : Prop where
  inside : count ≤ messages.length
  read : (framing.readAll stream).1 = messages.take count
  whole : stream = (messages.take count).flatMap framing.encode ++ (framing.readAll stream).2
  short : ∀ next ∈ messages[count]?,
    (framing.readAll stream).2.length < (framing.encode next).length

theorem ReadsFirst.cons {framing : Framing Symbol Message} {messages : List Message}
    {stream : List Symbol} {count : Nat} (message : Message)
    (reads : framing.ReadsFirst messages stream count) :
    framing.ReadsFirst (message :: messages) (framing.encode message ++ stream) (count + 1) where
  inside := Nat.succ_le_succ reads.inside
  read := by rw [readAll_frame, List.take_succ_cons, reads.read]
  whole := by
    rw [readAll_frame, List.take_succ_cons, List.flatMap_cons, List.append_assoc, ← reads.whole]
  short := by
    intro next here
    rw [readAll_frame]
    exact reads.short next here

theorem readsFirst_cut (message : Message) (messages : List Message) {cut : Nat}
    (broken : cut < (framing.encode message).length) :
    framing.ReadsFirst (message :: messages) ((framing.encode message).take cut) 0 := by
  have stops := framing.readAll_none (framing.decode_cut message cut broken)
  constructor
  · exact Nat.zero_le _
  · rw [stops]
    rfl
  · rw [stops]
    rfl
  · intro next here
    cases here
    rw [stops, List.length_take]
    exact Nat.lt_of_le_of_lt (Nat.min_le_left _ _) broken

theorem readsFirst_of_prefix {messages : List Message} {stream : List Symbol}
    (front : stream <+: messages.flatMap framing.encode) :
    ∃ count, framing.ReadsFirst messages stream count := by
  induction messages generalizing stream with
  | nil =>
    have empty : stream = [] := List.prefix_nil.mp front
    subst empty
    refine ⟨0, Nat.le_refl 0, ?_, ?_, ?_⟩
    · rw [readAll_nil, List.take_nil]
    · rw [readAll_nil, List.take_nil, List.flatMap_nil, List.append_nil]
    · intro next here
      cases here
  | cons message rest ih =>
    rw [List.flatMap_cons] at front
    rcases Nat.lt_or_ge stream.length (framing.encode message).length with broken | whole
    · have same : stream = (framing.encode message).take stream.length :=
        List.prefix_iff_eq_take.mp
          (List.prefix_of_prefix_length_le front (List.prefix_append _ _) (Nat.le_of_lt broken))
      rw [same]
      exact ⟨0, framing.readsFirst_cut message rest broken⟩
    · obtain ⟨behind, same⟩ :=
        List.prefix_of_prefix_length_le (List.prefix_append _ _) front whole
      subst same
      obtain ⟨count, reads⟩ := ih ((List.prefix_append_right_inj _).mp front)
      exact ⟨count + 1, reads.cons message⟩

theorem readsFirst_all (messages : List Message) :
    framing.ReadsFirst messages (messages.flatMap framing.encode) messages.length := by
  induction messages with
  | nil =>
    obtain ⟨count, reads⟩ := framing.readsFirst_of_prefix
      (List.prefix_refl (([] : List Message).flatMap framing.encode))
    rwa [Nat.eq_zero_of_le_zero reads.inside] at reads
  | cons message rest ih => exact ih.cons message

end Framing

end ComIpc.Semantics
