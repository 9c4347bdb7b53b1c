import ComIpc.Semantics.CString
import ComIpc.Semantics.LittleEndian
import ComIpc.Semantics.Streams
import ComIpc.Tools.Loan

/-! Recording a topic into a bag file and playing it back.

The recorder is given the messages that its subscriber receives, the player the file.
No signal arrives and all writes succeed. The delays of the player are left out; it
reads the timestamps for them alone.
-/

set_option autoImplicit false

namespace ComIpc.Tools

open Semantics

structure Recorded where
  timestamp : Int64
  data : Bytes
  deriving DecidableEq, Repr

def bagMagic : Bytes := [67, 66, 65, 71]

theorem length_bagMagic : bagMagic.length = 4 := rfl

def recordHeader (topicName : StdString) : Bytes :=
  bagMagic ++ (uint64Bytes topicName.length ++ topicName.chars)

def recordFrame (msg : Recorded) : Bytes :=
  int64Bytes msg.timestamp ++ (uint64Bytes (UInt64.ofNat msg.data.length) ++ msg.data)

def doRecord (topicName : StdString) (msgs : List Recorded) : Bytes :=
  msgs.foldl (fun file msg => file ++ recordFrame msg) (recordHeader topicName)

section
-- `uninitialised` is the former content of the stack buffers, `others` what the other
-- processes do to the pool before the i-th loan.
variable (uninitialised : Bytes) (others : Nat → Pool → Pool)

def playLoop (topicName : Bytes) (count : Nat) (pool : Pool) (file : InputStream) :
    List Publication × End :=
  match _seen : file.peek.1 with
  | none => ([], .finished)
  | some _ =>
    let timestamp := file.read (uninitialised.take 8) 8
    let dataSize := timestamp.2.read (uninitialised.take 8) 8
    if dataSize.2.eof then ([], .broken)
    else
      let size := (uint64Of dataSize.1).toNat
      match loanRaw (others count pool) size with
      | .error what => ([], .threw what)
      -- the pointer is never null, so the branch for a failed loan is not there
      | .ok (pool, offset) =>
        let data := dataSize.2.read (pool.val.data.load offset.toNat size) size
        match publishLoaned (fill pool offset data.1) topicName offset size with
        | .error what => ([], .threw what)
        | .ok published =>
          let later := playLoop topicName (count + 1) (fill pool offset data.1) data.2
          (published :: later.1, later.2)
  termination_by file.rest.length
  decreasing_by
    have first := InputStream.read_consumes _seen (uninitialised.take 8) (by decide : 0 < 8)
    have second := InputStream.read_shrinks (file.read (uninitialised.take 8) 8).2
      (uninitialised.take 8) 8
    have third := InputStream.read_shrinks dataSize.2 (pool.val.data.load offset.toNat size) size
    exact Nat.lt_of_le_of_lt (third.trans second) first

/-- `do_play`; `create` is the constructor of the publisher. -/
def doPlay (create : Bytes → Except String Unit) (pool : Pool) (content : Option Bytes) :
    List Publication × End :=
  match content with
  | none => ([], .unopened)
  | some content =>
    let magic := (InputStream.ofFile content).read (uninitialised.take 4) 4
    if strncmp magic.1 bagMagic 4 ≠ 0 then ([], .invalidFormat)
    else
      let topicLen := magic.2.read (uninitialised.take 8) 8
      let len := (uint64Of topicLen.1).toNat
      if maxStringSize < len then ([], .threw "length_error")
      else
        let topicName := topicLen.2.read (List.replicate len 0) len
        match create topicName.1 with
        | .error what => ([], .threw what)
        | .ok () => playLoop uninitialised others topicName.1 0 pool topicName.2

def Recorded.published (topicName : Bytes) (msg : Recorded) : Publication :=
  ⟨topicName, UInt32.ofNat msg.data.length, msg.data⟩

theorem doRecord_eq (topicName : StdString) (msgs : List Recorded) :
    doRecord topicName msgs = recordHeader topicName ++ msgs.flatMap recordFrame := by
  have appended : ∀ (file : Bytes) (msgs : List Recorded),
      msgs.foldl (fun file msg => file ++ recordFrame msg) file =
        file ++ msgs.flatMap recordFrame := by
    intro file msgs
    induction msgs generalizing file with
    | nil => simp
    | cons msg rest ih => rw [List.foldl_cons, ih, List.flatMap_cons, List.append_assoc]
  rw [doRecord, appended]

def frameHeader (msg : Recorded) : Bytes :=
  int64Bytes msg.timestamp ++ uint64Bytes (UInt64.ofNat msg.data.length)

theorem recordFrame_eq (msg : Recorded) : recordFrame msg = frameHeader msg ++ msg.data := by
  rw [recordFrame, frameHeader, List.append_assoc]

@[simp] theorem length_frameHeader (msg : Recorded) : (frameHeader msg).length = 16 := by
  simp [frameHeader]

theorem playLoop_header (topicName : Bytes) (count : Nat) (pool : Pool) (msg : Recorded)
    (rest : Bytes) (fits : msg.data.length ≤ poolSize) {after : Pool} {offset : UInt32}
    (loaned : loanRaw (others count pool) msg.data.length = .ok (after, offset)) :
    playLoop uninitialised others topicName count pool (.ofFile (frameHeader msg ++ rest)) =
      let data := (InputStream.ofFile rest).read
        (after.val.data.load offset.toNat msg.data.length) msg.data.length
      match publishLoaned (fill after offset data.1) topicName offset msg.data.length with
      | .error what => ([], .threw what)
      | .ok published =>
        let later :=
          playLoop uninitialised others topicName (count + 1) (fill after offset data.1) data.2
        (published :: later.1, later.2) := by
  have buffer : (uninitialised.take 8).length ≤ 8 := List.length_take_le 8 uninitialised
  have size : (uint64Of (uint64Bytes (UInt64.ofNat msg.data.length))).toNat =
      msg.data.length := toNat_uint64Of (Nat.lt_of_le_of_lt fits (by decide))
  have header : frameHeader msg ++ rest = int64Bytes msg.timestamp ++
      (uint64Bytes (UInt64.ofNat msg.data.length) ++ rest) := by
    rw [frameHeader, List.append_assoc]
  have timestamp := InputStream.read_front
    (uint64Bytes (UInt64.ofNat msg.data.length) ++ rest) (length_int64Bytes msg.timestamp) buffer
  have dataSize := InputStream.read_front rest
    (length_uint64Bytes (UInt64.ofNat msg.data.length)) buffer
  have seen : (InputStream.ofFile (frameHeader msg ++ rest)).peek.1 ≠ none := by
    intro ended
    have filled := length_frameHeader msg
    cases bytes : frameHeader msg with
    | nil => simp [bytes] at filled
    | cons b more => simp [bytes] at ended
  rw [playLoop]
  split
  · rename_i ended
    exact absurd ended seen
  · simp only [header, timestamp, dataSize, size, loaned]
    rfl

theorem playLoop_frame (topicName : Bytes) (count : Nat) (pool : Pool) (msg : Recorded)
    (rest : Bytes) (fits : msg.data.length ≤ poolSize) {after : Pool} {offset : UInt32}
    (loaned : loanRaw (others count pool) msg.data.length = .ok (after, offset))
    (own : offset.toNat < poolSize) (inside : offset.toNat + msg.data.length ≤ poolSize) :
    playLoop uninitialised others topicName count pool (.ofFile (recordFrame msg ++ rest)) =
      let later :=
        playLoop uninitialised others topicName (count + 1) (fill after offset msg.data)
          (.ofFile rest)
      (msg.published topicName :: later.1, later.2) := by
  have data := InputStream.read_front rest (rfl : msg.data.length = msg.data.length)
    (Nat.le_of_eq (ByteMemory.length_load after.val.data offset.toNat msg.data.length))
  have published := publishLoaned_fill after topicName msg.data own inside
  rw [recordFrame_eq, List.append_assoc,
    playLoop_header uninitialised others topicName count pool msg _ fits loaned]
  simp only [data, published]
  rfl

theorem playLoop_frames (topicName : Bytes) (count : Nat) (pool : Pool) (msgs : List Recorded)
    (sizes : ∀ msg ∈ msgs, 1 ≤ msg.data.length ∧ msg.data.length ≤ poolSize) :
    playLoop uninitialised others topicName count pool (.ofFile (msgs.flatMap recordFrame)) =
      (msgs.map (Recorded.published topicName), .finished) := by
  induction msgs generalizing count pool with
  | nil =>
    rw [playLoop]
    split
    · rfl
    · rename_i seen
      exact nomatch seen
  | cons msg rest ih =>
    obtain ⟨some_, fits⟩ := sizes msg List.mem_cons_self
    obtain ⟨after, offset, loaned, inside⟩ := loanRaw_ok (others count pool) fits
    have played := playLoop_frame uninitialised others topicName count pool msg
      (rest.flatMap recordFrame) fits loaned (by omega) inside
    have later := ih (count + 1) (fill after offset msg.data) fun other member =>
      sizes other (List.mem_cons_of_mem _ member)
    rw [List.flatMap_cons, played, later, List.map_cons]

theorem doPlay_header (create : Bytes → Except String Unit) (pool : Pool) (topicName : StdString)
    (rest : Bytes) :
    doPlay uninitialised others create pool (some (recordHeader topicName ++ rest)) =
      match create topicName.chars with
      | .error what => ([], .threw what)
      | .ok () => playLoop uninitialised others topicName.chars 0 pool (.ofFile rest) := by
  have length := topicName.toNat_length
  have magic := InputStream.read_front
    (uint64Bytes topicName.length ++ (topicName.chars ++ rest))
    length_bagMagic (List.length_take_le 4 uninitialised)
  have topicLen := InputStream.read_front (topicName.chars ++ rest)
    (length_uint64Bytes topicName.length) (List.length_take_le 8 uninitialised)
  have name := InputStream.read_front rest
    (rfl : topicName.chars.length = topicName.chars.length)
    (Nat.le_of_eq (List.length_replicate (a := (0 : UInt8))))
  have valid : strncmp bagMagic bagMagic 4 = 0 := by decide
  simp only [doPlay, recordHeader, List.append_assoc, magic, valid, topicLen, length, name, ne_eq,
    not_true, if_false, Nat.not_lt.mpr topicName.fits]

/-- Playing back a recorded file: if the publisher on the recorded topic can be constructed,
the same payloads are published with the same sizes and in the same order, and nothing else. -/
theorem play_record (create : Bytes → Except String Unit) (pool : Pool) (topicName : StdString)
    (msgs : List Recorded)
    (sizes : ∀ msg ∈ msgs, 1 ≤ msg.data.length ∧ msg.data.length ≤ poolSize) :
    doPlay uninitialised others create pool (some (doRecord topicName msgs)) =
      match create topicName.chars with
      | .error what => ([], .threw what)
      | .ok () => (msgs.map (Recorded.published topicName.chars), .finished) := by
  rw [doRecord_eq, doPlay_header]
  cases create topicName.chars with
  | error what => rfl
  | ok created =>
    exact playLoop_frames uninitialised others topicName.chars 0 pool msgs sizes

/-- Two messages, the second of which looks like the header of a bag file. -/
theorem play_record_magic :
    doPlay [] (fun _ pool => pool) (fun _ => .ok ()) Pool.init
      (some (doRecord ⟨[116], by decide⟩ [⟨5, [7]⟩, ⟨5, bagMagic⟩])) =
    ([⟨[116], 1, [7]⟩, ⟨[116], 4, bagMagic⟩], .finished) := by
  have sizes : ∀ msg ∈ [(⟨5, [7]⟩ : Recorded), ⟨5, bagMagic⟩],
      1 ≤ msg.data.length ∧ msg.data.length ≤ poolSize := by decide
  exact play_record [] (fun _ pool => pool) (fun _ => .ok ()) Pool.init
    ⟨[116], by decide⟩ _ sizes

end

end ComIpc.Tools
