import ComIpc.Tools.Export
import ComIpc.Tools.MessagePack

/-! The metadata of an exported message.

`do_export` builds a JSON object and packs it. A receiver that takes the frames apart and
unpacks their metadata gets the topic, the running number, the time and the size of each
message that arrived as a whole.
-/

set_option autoImplicit false

namespace ComIpc.Tools

open Semantics

def topicKey : Bytes := [116, 111, 112, 105, 99]

def seqKey : Bytes := [115, 101, 113]

def timestampKey : Bytes := [116, 105, 109, 101, 115, 116, 97, 109, 112]

def payloadSizeKey : Bytes := [112, 97, 121, 108, 111, 97, 100, 95, 115, 105, 122, 101]

/-- The four assignments of `do_export`. -/
def Meta.json (message : Meta) : Json :=
  let members := OrderedMap.insertEntry topicKey (.string message.topic) []
  let members := OrderedMap.insertEntry seqKey (.numberInteger message.seq.toInt64) members
  let members := OrderedMap.insertEntry timestampKey (.numberInteger message.timestamp) members
  .object (OrderedMap.insertEntry payloadSizeKey (.numberUnsigned message.payloadSize) members)

def Meta.toMsgpack (message : Meta) : Bytes := Json.writeMsgpack message.json

theorem Meta.json_eq (message : Meta) : message.json = .object
    [(payloadSizeKey, .numberUnsigned message.payloadSize),
      (seqKey, .numberInteger message.seq.toInt64),
      (timestampKey, .numberInteger message.timestamp), (topicKey, .string message.topic)] := rfl

theorem Meta.fits {message : Meta} (short : message.topic.length < 2 ^ 32) :
    message.json.Fits := by
  rw [Meta.json_eq]
  refine .object (show 4 < 2 ^ 32 by decide) ?_ ?_ ?_
  · simp only [List.pairwise_cons, List.mem_cons, List.not_mem_nil, or_false, forall_eq_or_imp,
      forall_eq, List.Pairwise.nil, and_true, false_implies, implies_true]
    decide
  · simp only [List.mem_cons, List.not_mem_nil, or_false, forall_eq_or_imp, forall_eq]
    decide
  · simp only [List.mem_cons, List.not_mem_nil, or_false, forall_eq_or_imp, forall_eq]
    exact ⟨.numberUnsigned _, .numberInteger _, .numberInteger _, .string short⟩

namespace Json

theorem length_writeUnsigned_le (n : UInt64) : (writeUnsigned n).length ≤ 9 := by
  unfold writeUnsigned
  repeat' split
  all_goals simp

theorem length_writeInteger_le (n : Int64) : (writeInteger n).length ≤ 9 := by
  unfold writeInteger
  split
  · exact length_writeUnsigned_le n.toUInt64
  · repeat' split
    all_goals simp

theorem length_writeString_le (s : Bytes) : (writeString s).length ≤ 5 + s.length := by
  simp only [writeString, List.length_append]
  repeat' split
  all_goals simp

end Json

theorem Meta.length_toMsgpack_le (message : Meta) :
    message.toMsgpack.length ≤ 66 + message.topic.length := by
  have size := Json.length_writeUnsigned_le message.payloadSize
  have seq := Json.length_writeInteger_le message.seq.toInt64
  have time := Json.length_writeInteger_le message.timestamp
  have topic := Json.length_writeString_le message.topic
  have keys : (Json.writeString payloadSizeKey).length = 13 ∧
      (Json.writeString seqKey).length = 4 ∧ (Json.writeString timestampKey).length = 10 ∧
      (Json.writeString topicKey).length = 6 := by
    decide
  have first : (Json.writeSize 0x80 0xDE 0xDF (0 + 1 + 1 + 1 + 1)).length = 1 := by decide
  rw [Meta.toMsgpack, Meta.json_eq]
  simp only [Json.writeMsgpack, Json.writeMembers, List.length_append, List.length_cons,
    List.length_nil]
  omega

theorem Meta.unpacks (message : Meta) (short : message.topic.length < 2 ^ 32) :
    Json.fromMsgpack message.toMsgpack = some message.json.reread :=
  ((Meta.fits short).takes (Nat.le_refl _)).strict

theorem numbered_topic {topicName : Bytes} {msgCount : Int32} {msgs : List Sent}
    {message : Meta × Bytes} (member : message ∈ numbered topicName msgCount msgs) :
    message.1.topic = topicName ∧ ∃ msg ∈ msgs, message.2 = msg.data := by
  induction msgs generalizing msgCount with
  | nil => cases member
  | cons msg rest ih =>
    rcases List.mem_cons.mp member with rfl | later
    · exact ⟨rfl, msg, List.mem_cons_self, rfl⟩
    · obtain ⟨topic, other, inside, same⟩ := ih later
      exact ⟨topic, other, List.mem_cons_of_mem msg inside, same⟩

/-- A receiver that takes the frames apart and unpacks their metadata gets the first messages,
each with its topic, number, time and size: all of them, unless the socket fails or the handler
stops the export. -/
theorem unpacks_what_was_exported (env : Exporting) (topicName : StdString) (msgs : List Sent)
    (short : 66 + topicName.chars.length < 2 ^ 32)
    (fits : ∀ msg ∈ msgs, msg.data.length < 2 ^ 32) :
    ∃ sent, HybridFrame.framing.ReadsFirst (exportedFrames Meta.toMsgpack topicName msgs)
        (exportRun env Meta.toMsgpack topicName msgs) sent ∧
      (HybridFrame.framing.readAll (exportRun env Meta.toMsgpack topicName msgs)).1.map
          (fun frame => (Json.fromMsgpack frame.metadata, frame.payload)) =
        ((numbered topicName.chars 0 msgs).take sent).map
          (fun message => (some message.1.json.reread, message.2)) ∧
      (env.Unstopped → sent = msgs.length) := by
  obtain ⟨sent, reads, all⟩ := exportRun_reads env Meta.toMsgpack topicName msgs
  refine ⟨sent, reads, ?_, all⟩
  rw [reads.read, exportedFrames, ← List.map_take, List.map_map]
  apply List.map_congr_left
  intro message member
  obtain ⟨topic, msg, inside, data⟩ := numbered_topic (List.mem_of_mem_take member)
  have length := message.1.length_toMsgpack_le
  rw [topic] at length
  have parts := HybridFrame.ofMessage_parts Meta.toMsgpack
    ⟨Nat.lt_of_le_of_lt length short, data ▸ fits msg inside⟩
  obtain ⟨metadata, payload⟩ := Prod.mk.inj parts
  have unpacked := message.1.unpacks
    (topic ▸ Nat.lt_of_le_of_lt (Nat.le_add_left _ _) short)
  rw [Function.comp_apply, metadata, payload, unpacked]

theorem unpacks_what_was_exported_interrupted :
    ∃ sent, HybridFrame.framing.ReadsFirst
        (exportedFrames Meta.toMsgpack ⟨[116], by decide⟩ [⟨5, [7]⟩, ⟨6, [8, 9]⟩])
        (exportRun interruptedExport Meta.toMsgpack ⟨[116], by decide⟩
          [⟨5, [7]⟩, ⟨6, [8, 9]⟩]) sent ∧
      (HybridFrame.framing.readAll (exportRun interruptedExport Meta.toMsgpack
          ⟨[116], by decide⟩ [⟨5, [7]⟩, ⟨6, [8, 9]⟩])).1.map
          (fun frame => (Json.fromMsgpack frame.metadata, frame.payload)) =
        ((numbered [116] 0 [⟨5, [7]⟩, ⟨6, [8, 9]⟩]).take sent).map
          (fun message => (some message.1.json.reread, message.2)) ∧
      (interruptedExport.Unstopped → sent = 2) :=
  unpacks_what_was_exported interruptedExport ⟨[116], by decide⟩ [⟨5, [7]⟩, ⟨6, [8, 9]⟩]
    (by decide) (by decide)

end ComIpc.Tools
