import ComIpc.Semantics.Frames
import ComIpc.Tools.Router
import ComIpc.Tools.Sockets

/-! What `do_export` has sent when its socket fails or the signal handler stops it.

`send_all` reports success also when the handler stops it halfway. Nothing is sent behind
such a hole: the flag stays cleared, so every later `send_all` finds it cleared and sends
nothing.
-/

set_option autoImplicit false

namespace ComIpc.Tools

open Semantics

/-! ### The frames of the hybrid protocol -/

/-- The metadata and the payload of a frame, each of a length that its field can hold. -/
structure HybridFrame where
  metadata : Bytes
  payload : Bytes
  metadata_fits : metadata.length < 2 ^ 32
  payload_fits : payload.length < 2 ^ 32

namespace HybridFrame

def header (metaLen payloadLen : UInt32) : Bytes :=
  hybridMagic ++ uint32Bytes metaLen ++ uint32Bytes payloadLen

def encode (frame : HybridFrame) : Bytes :=
  header (UInt32.ofNat frame.metadata.length) (UInt32.ofNat frame.payload.length) ++
    (frame.metadata ++ frame.payload)

def readBody (metaLen payloadLen : UInt32) (body : Bytes) : Option (HybridFrame × Bytes) :=
  if metaLen.toNat + payloadLen.toNat ≤ body.length then
    some (⟨body.take metaLen.toNat, (body.drop metaLen.toNat).take payloadLen.toNat,
        Nat.lt_of_le_of_lt (List.length_take_le _ _) metaLen.toNat_lt,
        Nat.lt_of_le_of_lt (List.length_take_le _ _) payloadLen.toNat_lt⟩,
      body.drop (metaLen.toNat + payloadLen.toNat))
  else none

/-- A receiver of the documented header `< 4s I I`. -/
def decode (stream : Bytes) : Option (HybridFrame × Bytes) :=
  if 12 ≤ stream.length ∧ stream.take 4 = hybridMagic then
    readBody (uint32Of (stream.drop 4)) (uint32Of (stream.drop 8)) (stream.drop 12)
  else none

theorem toNat_field {length : Nat} (fits : length < 2 ^ 32) :
    (UInt32.ofNat length).toNat = length := by
  rw [UInt32.toNat_ofNat', Nat.mod_eq_of_lt fits]

@[simp] theorem length_header (metaLen payloadLen : UInt32) :
    (header metaLen payloadLen).length = 12 := by
  simp [header, hybridMagic]

theorem length_encode (frame : HybridFrame) :
    frame.encode.length = 12 + (frame.metadata.length + frame.payload.length) := by
  rw [encode, List.length_append, length_header, List.length_append]

theorem decode_header (metaLen payloadLen : UInt32) (body : Bytes) :
    decode (header metaLen payloadLen ++ body) = readBody metaLen payloadLen body := by
  have split : header metaLen payloadLen ++ body =
      hybridMagic ++ (uint32Bytes metaLen ++ (uint32Bytes payloadLen ++ body)) := by
    simp only [header, List.append_assoc]
  have magic : (header metaLen payloadLen ++ body).take 4 = hybridMagic := by
    rw [split]
    exact List.take_left' rfl
  have first : (header metaLen payloadLen ++ body).drop 4 =
      uint32Bytes metaLen ++ (uint32Bytes payloadLen ++ body) := by
    rw [split]
    exact List.drop_left' rfl
  have second : (header metaLen payloadLen ++ body).drop 8 = uint32Bytes payloadLen ++ body := by
    rw [← List.drop_drop (i := 4) (j := 4), first, List.drop_left' (length_uint32Bytes metaLen)]
  have third : (header metaLen payloadLen ++ body).drop 12 = body :=
    List.drop_left' (length_header metaLen payloadLen)
  have long : 12 ≤ (header metaLen payloadLen ++ body).length := by
    rw [List.length_append, length_header]
    exact Nat.le_add_right _ _
  rw [decode, if_pos ⟨long, magic⟩, first, second, third, uint32Of_image, uint32Of_image]

theorem readBody_whole (frame : HybridFrame) (rest : Bytes) :
    readBody (UInt32.ofNat frame.metadata.length) (UInt32.ofNat frame.payload.length)
      (frame.metadata ++ (frame.payload ++ rest)) = some (frame, rest) := by
  have whole : frame.metadata.length + frame.payload.length ≤
      (frame.metadata ++ (frame.payload ++ rest)).length := by
    simp only [List.length_append]
    omega
  simp only [readBody, toNat_field frame.metadata_fits, toNat_field frame.payload_fits,
    if_pos whole, ← List.drop_drop, List.take_left', List.drop_left']

theorem readBody_short {metaLen payloadLen : UInt32} {body : Bytes}
    (short : body.length < metaLen.toNat + payloadLen.toNat) :
    readBody metaLen payloadLen body = none :=
  if_neg (Nat.not_le.mpr short)

def framing : Framing UInt8 HybridFrame where
  encode := encode
  decode := decode
  decode_encode := by
    intro frame rest
    simp only [encode, List.append_assoc, decode_header, readBody_whole]
  decode_cut := by
    intro frame cut broken
    rw [length_encode] at broken
    rcases Nat.lt_or_ge cut 12 with header | body
    · have short : ¬ 12 ≤ (frame.encode.take cut).length := by
        rw [List.length_take]
        omega
      rw [decode, if_neg fun all => short all.1]
    · obtain ⟨came, rfl⟩ := Nat.exists_eq_add_of_le body
      have shape : frame.encode.take (12 + came) =
          header (UInt32.ofNat frame.metadata.length) (UInt32.ofNat frame.payload.length) ++
            (frame.metadata ++ frame.payload).take came := by
        rw [encode, ← length_header (UInt32.ofNat frame.metadata.length)
          (UInt32.ofNat frame.payload.length), List.take_length_add_append]
      rw [shape, decode_header]
      apply readBody_short
      rw [toNat_field frame.metadata_fits, toNat_field frame.payload_fits, List.length_take]
      omega
  decode_shrinks := by
    intro stream frame rest found
    unfold decode at found
    split at found
    · rename_i header
      unfold readBody at found
      split at found
      · cases found
        simp only [List.length_drop]
        omega
      · contradiction
    · contradiction

end HybridFrame

/-! ### The run of the exporter -/

/-- What the exporter meets, counted in calls of `send_all`: what the test of the main loop reads
in front of the n-th call, and what that call meets. The handler only ever clears the flag. -/
structure Exporting where
  goOn : Nat → Bool
  call : Nat → Transfers
  stays : ∀ {n round}, (call n).running round = false → ∀ later, n < later →
    goOn later = false ∧ ∀ round, (call later).running round = false

section
variable (env : Exporting)

/-- The lines `if (!send_all(..)) break;`: whether the loop goes on, and what has been sent. -/
def sendEach (n : Nat) : List Bytes → Bool × Bytes
  | [] => (true, [])
  | chunk :: rest =>
    let sent := Socket.sendAll (env.call n) chunk
    if sent.1 = true then
      let later := sendEach (n + 1) rest
      (later.1, sent.2 ++ later.2)
    else (false, sent.2)

def Exporting.Stopped (n : Nat) : Prop :=
  ∀ later, n ≤ later → env.goOn later = false ∧ ∀ round, (env.call later).running round = false

theorem Exporting.stopped_of_cleared {n round : Nat} (cleared : (env.call n).running round = false)
    {later : Nat} (behind : n < later) : env.Stopped later :=
  fun _ after => env.stays cleared _ (Nat.lt_of_lt_of_le behind after)

theorem Exporting.Stopped.later {env : Exporting} {n later : Nat} (stopped : env.Stopped n)
    (after : n ≤ later) : env.Stopped later :=
  fun _ behind => stopped _ (Nat.le_trans after behind)

theorem sendEach_stopped {n : Nat} (stopped : env.Stopped n) (chunks : List Bytes) :
    sendEach env n chunks = (true, []) := by
  induction chunks generalizing n with
  | nil => rfl
  | cons chunk rest ih =>
    have here := Socket.sendAll_cleared (env.call n) (stopped n (Nat.le_refl n)).2 chunk
    simp only [sendEach, here, if_true, ih (stopped.later (Nat.le_succ n)), List.nil_append]

/-- The calls for one message have sent all of it, or a front of it; then the loop has ended or
nothing will be sent any more. -/
theorem sendEach_cases (n : Nat) (chunks : List Bytes) :
    sendEach env n chunks = (true, chunks.flatten) ∨
      (sendEach env n chunks).2 <+: chunks.flatten ∧
        ((sendEach env n chunks).1 = false ∨ env.Stopped (n + chunks.length)) := by
  induction chunks generalizing n with
  | nil => exact .inl rfl
  | cons chunk rest ih =>
    rw [List.flatten_cons, sendEach]
    rcases Socket.sendAll_cases (env.call n) chunk with whole | ⟨front, failed | ⟨round, cleared⟩⟩
    · -- this chunk is out, so the induction hypothesis decides
      simp only [whole, if_true]
      rcases ih (n + 1) with all | ⟨part, ended⟩
      · rw [all]
        exact .inl rfl
      · rw [Nat.add_assoc, Nat.add_comm 1] at ended
        exact .inr ⟨(List.prefix_append_right_inj chunk).mpr part, ended⟩
    · simp only [failed, Bool.false_eq_true, if_false]
      exact .inr ⟨front.trans (List.prefix_append _ _), .inl trivial⟩
    · have stopped := env.stopped_of_cleared cleared (Nat.lt_succ_self n)
      have stays : env.Stopped (n + (chunk :: rest).length) :=
        stopped.later (Nat.add_le_add_left (Nat.succ_le_succ (Nat.zero_le _)) n)
      simp only [sendEach_stopped env stopped, List.append_nil]
      have part := front.trans (List.prefix_append chunk rest.flatten)
      split
      · exact .inr ⟨part, .inr stays⟩
      · exact .inr ⟨part, .inl rfl⟩

variable (toMsgpack : Meta → Bytes)

def exportChunks (topicName : Bytes) (msgCount : Int32) (msg : Sent) : List Bytes :=
  let encoded := toMsgpack ⟨topicName, msgCount, msg.timestamp, UInt64.ofNat msg.data.length⟩
  let metaLen := UInt32.ofNat encoded.length
  let payloadLen := UInt32.ofNat msg.data.length
  [hybridMagic, uint32Bytes metaLen, uint32Bytes payloadLen, encoded.take metaLen.toNat,
    msg.data.take payloadLen.toNat]

/-- What the main loop of `do_export` has sent when it ends, for the messages that its subscriber
would receive. -/
def exportSends (topicName : Bytes) (n : Nat) (msgCount : Int32) : List Sent → Bytes
  | [] => []
  | msg :: rest =>
    if env.goOn n = true then
      let sent := sendEach env n (exportChunks toMsgpack topicName msgCount msg)
      if sent.1 = true then sent.2 ++ exportSends topicName (n + 5) (msgCount + 1) rest
      else sent.2
    else []

theorem flatten_exportChunks (topicName : Bytes) (msgCount : Int32) (msg : Sent) :
    (exportChunks toMsgpack topicName msgCount msg).flatten =
      exportFrame toMsgpack topicName msgCount msg := by
  simp only [exportChunks, exportFrame, List.flatten_cons, List.flatten_nil, List.append_nil]

theorem exportSends_stopped {n : Nat} (stopped : env.Stopped n) (topicName : Bytes)
    (msgCount : Int32) (msgs : List Sent) :
    exportSends env toMsgpack topicName n msgCount msgs = [] := by
  cases msgs with
  | nil => rfl
  | cons msg rest =>
    have ends : ¬ env.goOn n = true := by
      rw [(stopped n (Nat.le_refl n)).1]
      exact Bool.false_ne_true
    rw [exportSends, if_neg ends]

theorem exportSends_prefix (topicName : Bytes) (n : Nat) (msgCount : Int32) (msgs : List Sent) :
    exportSends env toMsgpack topicName n msgCount msgs <+:
      exportLoop toMsgpack topicName msgCount msgs := by
  induction msgs generalizing n msgCount with
  | nil => exact List.prefix_refl []
  | cons msg rest ih =>
    have frame := flatten_exportChunks toMsgpack topicName msgCount msg
    rw [exportSends, exportLoop, ← frame]
    split
    · rcases sendEach_cases env n (exportChunks toMsgpack topicName msgCount msg) with
        whole | ⟨front, failed | stopped⟩
      · simp only [whole, if_true]
        exact (List.prefix_append_right_inj _).mpr (ih (n + 5) (msgCount + 1))
      · simp only [failed, Bool.false_eq_true, if_false]
        exact front.trans (List.prefix_append _ _)
      · have silent := exportSends_stopped env toMsgpack stopped topicName (msgCount + 1) rest
        simp only [show n + (exportChunks toMsgpack topicName msgCount msg).length = n + 5 from rfl]
          at silent
        simp only [silent, List.append_nil, ite_self]
        exact front.trans (List.prefix_append _ _)
    · exact List.nil_prefix

structure Exporting.Unstopped : Prop where
  goOn : ∀ n, env.goOn n = true
  running : ∀ n round, (env.call n).running round = true
  positive : ∀ n round, 0 < (env.call n).answer round

theorem sendEach_unstopped (unstopped : env.Unstopped) (n : Nat) (chunks : List Bytes) :
    sendEach env n chunks = (true, chunks.flatten) := by
  induction chunks generalizing n with
  | nil => rfl
  | cons chunk rest ih =>
    have whole := Socket.sendAll_unstopped (env.call n) (unstopped.running n)
      (unstopped.positive n) chunk
    simp only [sendEach, whole, if_true, ih, List.flatten_cons]

theorem exportSends_unstopped (unstopped : env.Unstopped) (topicName : Bytes) (n : Nat)
    (msgCount : Int32) (msgs : List Sent) :
    exportSends env toMsgpack topicName n msgCount msgs =
      exportLoop toMsgpack topicName msgCount msgs := by
  induction msgs generalizing n msgCount with
  | nil => rfl
  | cons msg rest ih =>
    have whole := sendEach_unstopped env unstopped n (exportChunks toMsgpack topicName msgCount msg)
    simp only [exportSends, exportLoop, unstopped.goOn n, whole, if_true, ih,
      flatten_exportChunks]

/-! ### What a receiver makes of it -/

def numbered (topicName : Bytes) (msgCount : Int32) : List Sent → List (Meta × Bytes)
  | [] => []
  | msg :: rest =>
    (⟨topicName, msgCount, msg.timestamp, UInt64.ofNat msg.data.length⟩, msg.data) ::
      numbered topicName (msgCount + 1) rest

end

namespace HybridFrame

variable (toMsgpack : Meta → Bytes)

/-- What the frame of a message carries, cut to the lengths that the header announces. -/
def ofMessage (message : Meta × Bytes) : HybridFrame :=
  let metaLen := UInt32.ofNat (toMsgpack message.1).length
  let payloadLen := UInt32.ofNat message.2.length
  ⟨(toMsgpack message.1).take metaLen.toNat, message.2.take payloadLen.toNat,
    Nat.lt_of_le_of_lt (List.length_take_le _ _) metaLen.toNat_lt,
    Nat.lt_of_le_of_lt (List.length_take_le _ _) payloadLen.toNat_lt⟩

theorem take_field {bytes : Bytes} (fits : bytes.length < 2 ^ 32) :
    bytes.take (UInt32.ofNat bytes.length).toNat = bytes := by
  rw [toNat_field fits, List.take_length]

theorem length_field (bytes : Bytes) :
    UInt32.ofNat (bytes.take (UInt32.ofNat bytes.length).toNat).length =
      UInt32.ofNat bytes.length := by
  have inside : (UInt32.ofNat bytes.length).toNat ≤ bytes.length := by
    rw [UInt32.toNat_ofNat']
    exact Nat.mod_le _ _
  rw [List.length_take_of_le inside, UInt32.ofNat_toNat]

theorem exportLoop_eq (topicName : Bytes) (msgCount : Int32) (msgs : List Sent) :
    exportLoop toMsgpack topicName msgCount msgs =
      ((numbered topicName msgCount msgs).map (ofMessage toMsgpack)).flatMap encode := by
  induction msgs generalizing msgCount with
  | nil => rfl
  | cons msg rest ih =>
    rw [exportLoop, numbered, List.map_cons, List.flatMap_cons, ← ih, exportFrame, encode]
    simp only [ofMessage, length_field, header, List.append_assoc]

theorem ofMessage_parts {message : Meta × Bytes}
    (fits : (toMsgpack message.1).length < 2 ^ 32 ∧ message.2.length < 2 ^ 32) :
    ((ofMessage toMsgpack message).metadata, (ofMessage toMsgpack message).payload) =
      (toMsgpack message.1, message.2) := by
  simp only [ofMessage, take_field fits.1, take_field fits.2]

end HybridFrame

theorem length_numbered (topicName : Bytes) (msgCount : Int32) (msgs : List Sent) :
    (numbered topicName msgCount msgs).length = msgs.length := by
  induction msgs generalizing msgCount with
  | nil => rfl
  | cons msg rest ih => rw [numbered, List.length_cons, ih, List.length_cons]

section
variable (env : Exporting) (toMsgpack : Meta → Bytes)

def exportRun (topicName : StdString) (msgs : List Sent) : Bytes :=
  exportSends env toMsgpack topicName.chars 0 0 msgs

def exportedFrames (topicName : StdString) (msgs : List Sent) : List HybridFrame :=
  (numbered topicName.chars 0 msgs).map (HybridFrame.ofMessage toMsgpack)

theorem doExport_eq (topicName : StdString) (msgs : List Sent) :
    doExport toMsgpack topicName msgs =
      (exportedFrames toMsgpack topicName msgs).flatMap HybridFrame.framing.encode :=
  HybridFrame.exportLoop_eq toMsgpack topicName.chars 0 msgs

theorem exportRun_reads (topicName : StdString) (msgs : List Sent) :
    ∃ sent, HybridFrame.framing.ReadsFirst (exportedFrames toMsgpack topicName msgs)
        (exportRun env toMsgpack topicName msgs) sent ∧
      (env.Unstopped → sent = msgs.length) := by
  have length : (exportedFrames toMsgpack topicName msgs).length = msgs.length := by
    rw [exportedFrames, List.length_map, length_numbered]
  have whole := doExport_eq toMsgpack topicName msgs
  by_cases unstopped : env.Unstopped
  · have all := HybridFrame.framing.readsFirst_all (exportedFrames toMsgpack topicName msgs)
    have same : exportRun env toMsgpack topicName msgs = doExport toMsgpack topicName msgs :=
      exportSends_unstopped env toMsgpack unstopped topicName.chars 0 0 msgs
    rw [← whole, ← same] at all
    exact ⟨_, all, fun _ => length⟩
  · have front : exportRun env toMsgpack topicName msgs <+: doExport toMsgpack topicName msgs :=
      exportSends_prefix env toMsgpack topicName.chars 0 0 msgs
    rw [whole] at front
    obtain ⟨sent, reads⟩ := HybridFrame.framing.readsFirst_of_prefix front
    exact ⟨sent, reads, fun undisturbed => absurd undisturbed unstopped⟩

/-- A receiver finds the first messages with their own metadata and payloads and nothing else:
all of them, unless the socket fails or the handler stops the export. -/
theorem exports_whole_messages (topicName : StdString) (msgs : List Sent)
    (fits : ∀ message ∈ numbered topicName.chars 0 msgs,
      (toMsgpack message.1).length < 2 ^ 32 ∧ message.2.length < 2 ^ 32) :
    ∃ sent, HybridFrame.framing.ReadsFirst (exportedFrames toMsgpack topicName msgs)
        (exportRun env toMsgpack topicName msgs) sent ∧
      (HybridFrame.framing.readAll (exportRun env toMsgpack topicName msgs)).1.map
          (fun frame => (frame.metadata, frame.payload)) =
        ((numbered topicName.chars 0 msgs).take sent).map
          (fun message => (toMsgpack message.1, message.2)) ∧
      (env.Unstopped → sent = msgs.length) := by
  obtain ⟨sent, reads, all⟩ := exportRun_reads env toMsgpack topicName msgs
  refine ⟨sent, reads, ?_, all⟩
  rw [reads.read, exportedFrames, ← List.map_take, List.map_map]
  apply List.map_congr_left
  intro message member
  exact HybridFrame.ofMessage_parts toMsgpack (fits message (List.mem_of_mem_take member))

end

def interruptedExport : Exporting where
  goOn n := decide (n < 8)
  call n := ⟨fun round => decide (n < 8 ∨ n = 8 ∧ round = 0), fun _ => 1⟩
  stays := by
    intro n round cleared later behind
    have passed := of_decide_eq_false cleared
    constructor
    · exact decide_eq_false (by omega)
    · exact fun other => decide_eq_false (by omega)

theorem exports_whole_messages_interrupted :
    ∃ sent, HybridFrame.framing.ReadsFirst
        (exportedFrames plainEncoding ⟨[116], by decide⟩ [⟨5, [7]⟩, ⟨6, [8, 9]⟩])
        (exportRun interruptedExport plainEncoding ⟨[116], by decide⟩
          [⟨5, [7]⟩, ⟨6, [8, 9]⟩]) sent ∧
      (HybridFrame.framing.readAll (exportRun interruptedExport plainEncoding ⟨[116], by decide⟩
          [⟨5, [7]⟩, ⟨6, [8, 9]⟩])).1.map (fun frame => (frame.metadata, frame.payload)) =
        ((numbered [116] 0 [⟨5, [7]⟩, ⟨6, [8, 9]⟩]).take sent).map
          (fun message => (plainEncoding message.1, message.2)) ∧
      (interruptedExport.Unstopped → sent = 2) :=
  exports_whole_messages interruptedExport plainEncoding ⟨[116], by decide⟩
    [⟨5, [7]⟩, ⟨6, [8, 9]⟩] (by decide)

end ComIpc.Tools
