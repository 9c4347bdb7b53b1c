import Mathlib.Data.List.Basic

/-! Byte sources that are read in order: a file behind `std::ifstream` and a socket whose
peer has closed.

A read that comes up short fills the front of its buffer and leaves the rest of it as it
was.
-/

set_option autoImplicit false

namespace ComIpc.Semantics

/-- What is left of the file, `eofbit` and `failbit`. -/
structure InputStream where
  rest : List UInt8
  eof : Bool
  fail : Bool
  deriving DecidableEq, Repr

namespace InputStream

def ofFile (content : List UInt8) : InputStream := ⟨content, false, false⟩

def good (s : InputStream) : Bool := !s.eof && !s.fail

def peek (s : InputStream) : Option UInt8 × InputStream :=
  if s.good then
    match s.rest with
    | [] => (none, { s with eof := true })
    | b :: _ => (some b, s)
  else (none, { s with fail := true })

def read (s : InputStream) (buffer : List UInt8) (size : Nat) : List UInt8 × InputStream :=
  if s.good then
    if size ≤ s.rest.length then
      (s.rest.take size ++ buffer.drop size, { s with rest := s.rest.drop size })
    else (s.rest ++ buffer.drop s.rest.length, ⟨[], true, true⟩)
  else (buffer, { s with fail := true })

@[simp] theorem peek_nil : (ofFile []).peek = (none, ⟨[], true, false⟩) := rfl

@[simp] theorem peek_cons (b : UInt8) (rest : List UInt8) :
    (ofFile (b :: rest)).peek = (some b, ofFile (b :: rest)) := rfl

theorem read_front {data buffer : List UInt8} (rest : List UInt8) {size : Nat}
    (whole : data.length = size) (room : buffer.length ≤ size) :
    (ofFile (data ++ rest)).read buffer size = (data, ofFile rest) := by
  subst whole
  simp [ofFile, read, good, List.drop_of_length_le room]

theorem read_short {content buffer : List UInt8} {size : Nat} (short : content.length < size) :
    (ofFile content).read buffer size =
      (content ++ buffer.drop content.length, ⟨[], true, true⟩) := by
  simp [ofFile, read, good, Nat.not_le.mpr short]

theorem peek_bad {s : InputStream} (bad : s.good = false) : s.peek.1 = none := by
  simp [peek, bad]

theorem read_bad {s : InputStream} (bad : s.good = false) (buffer : List UInt8) (size : Nat) :
    s.read buffer size = (buffer, { s with fail := true }) := by
  rw [read, bad, if_neg Bool.false_ne_true]

@[simp] theorem good_failed (rest : List UInt8) (eof : Bool) :
    (⟨rest, eof, true⟩ : InputStream).good = false := by
  simp [good]

theorem read_shrinks (s : InputStream) (buffer : List UInt8) (size : Nat) :
    (s.read buffer size).2.rest.length ≤ s.rest.length := by
  unfold read
  split
  · split
    · simp
    · simp
  · simp

theorem read_consumes {s : InputStream} {b : UInt8} (seen : s.peek.1 = some b)
    (buffer : List UInt8) {size : Nat} (some_ : 0 < size) :
    (s.read buffer size).2.rest.length < s.rest.length := by
  unfold peek at seen
  split at seen
  · rename_i good
    split at seen
    · contradiction
    · rename_i head tail shape
      unfold read
      rw [if_pos good]
      split
      · simp only [List.length_drop, shape, List.length_cons]
        omega
      · simp [shape]
  · contradiction

end InputStream

/-- `recv_all`: the buffer, what is left of the stream, and whether all bytes came. -/
def recvAll (stream buffer : List UInt8) (size : Nat) : List UInt8 × List UInt8 × Bool :=
  (stream.take size ++ buffer.drop (min size stream.length), stream.drop size,
    decide (size ≤ stream.length))

theorem recvAll_front {data buffer : List UInt8} (rest : List UInt8) {size : Nat}
    (whole : data.length = size) (room : buffer.length ≤ size) :
    recvAll (data ++ rest) buffer size = (data, rest, true) := by
  subst whole
  simp [recvAll, List.drop_of_length_le room]

theorem recvAll_enough {stream buffer : List UInt8} {size : Nat} (enough : size ≤ stream.length)
    (room : buffer.length ≤ size) :
    recvAll stream buffer size = (stream.take size, stream.drop size, true) := by
  have front := recvAll_front (stream.drop size) (List.length_take_of_le enough) room
  rwa [List.take_append_drop] at front

theorem recvAll_short {stream : List UInt8} {size : Nat} (short : stream.length < size)
    (buffer : List UInt8) : (recvAll stream buffer size).2.2 = false :=
  decide_eq_false (Nat.not_le.mpr short)

theorem recvAll_all {stream buffer : List UInt8} {size : Nat}
    (came : (recvAll stream buffer size).2.2 = true) :
    (recvAll stream buffer size).2.1.length + size = stream.length := by
  have enough := of_decide_eq_true came
  simp only [recvAll, List.length_drop]
  omega

end ComIpc.Semantics
