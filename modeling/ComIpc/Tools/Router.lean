import ComIpc.Semantics.CString
import ComIpc.Semantics.LittleEndian
import ComIpc.Semantics.Streams
import ComIpc.Tools.Loan

/-! Exporting a topic to a socket and importing one from a socket.

The exporter speaks the hybrid protocol: every message is a frame of its own that begins
with "HYBR" and carries its topic in a MessagePack object. The importer expects one
handshake that begins with "CIPC", and frames that are a size and a payload.
-/

set_option autoImplicit false

namespace ComIpc.Tools

open Semantics

structure Meta where
  topic : Bytes
  seq : Int32
  timestamp : Int64
  payloadSize : UInt64
  deriving DecidableEq, Repr

structure Sent where
  timestamp : Int64
  data : Bytes
  deriving DecidableEq, Repr

def hybridMagic : Bytes := [72, 89, 66, 82]

def importMagic : Bytes := [67, 73, 80, 67]

theorem length_importMagic : importMagic.length = 4 := rfl

section
-- The encoder is the one of the vendored JSON library.
variable (toMsgpack : Meta → Bytes)

/-- The five sends of `do_export` for one message. -/
def exportFrame (topicName : Bytes) (msgCount : Int32) (msg : Sent) : Bytes :=
  let encoded := toMsgpack ⟨topicName, msgCount, msg.timestamp, UInt64.ofNat msg.data.length⟩
  let metaLen := UInt32.ofNat encoded.length
  let payloadLen := UInt32.ofNat msg.data.length
  hybridMagic ++ (uint32Bytes metaLen ++ (uint32Bytes payloadLen ++
    (encoded.take metaLen.toNat ++ msg.data.take payloadLen.toNat)))

def exportLoop (topicName : Bytes) (msgCount : Int32) : List Sent → Bytes
  | [] => []
  | msg :: rest =>
    exportFrame toMsgpack topicName msgCount msg ++ exportLoop topicName (msgCount + 1) rest

def doExport (topicName : StdString) (msgs : List Sent) : Bytes :=
  exportLoop toMsgpack topicName.chars 0 msgs

end

section
-- `uninitialised` is the former content of the stack buffers, `others` what the other
-- processes do to the pool before the i-th loan.
variable (uninitialised : Bytes) (others : Nat → Pool → Pool)

/-- The main loop of `do_import`; the peer closes the connection after the stream. -/
def importLoop (topicName : Bytes) (count : Nat) (pool : Pool) (stream : Bytes) :
    List Publication × End :=
  let dataSize := recvAll stream (uninitialised.take 8) 8
  if _came : dataSize.2.2 = true then
    let size := (uint64Of dataSize.1).toNat
    match loanRaw (others count pool) size with
    | .error what => ([], .threw what)
    | .ok (pool, offset) =>
      let data := recvAll dataSize.2.1 (pool.val.data.load offset.toNat size) size
      if _whole : data.2.2 = true then
        match publishLoaned (fill pool offset data.1) topicName offset size with
        | .error what => ([], .threw what)
        | .ok published =>
          let later := importLoop topicName (count + 1) (fill pool offset data.1) data.2.1
          (published :: later.1, later.2)
      else ([], .broken)
  else ([], .broken)
  termination_by stream.length
  decreasing_by
    have shorter := Nat.le.intro (recvAll_all _whole)
    exact Nat.lt_of_le_of_lt shorter (Nat.lt_of_succ_le (Nat.le_trans
      (Nat.add_le_add_left (show 1 ≤ 8 by decide) _) (Nat.le_of_eq (recvAll_all _came))))

/-- `do_import` once a client is connected; `create` is the constructor of the publisher. -/
def doImport (create : Bytes → Except String Unit) (pool : Pool) (stream : Bytes) :
    List Publication × End :=
  let magic := recvAll stream (uninitialised.take 4) 4
  if magic.2.2 = false ∨ strncmp magic.1 importMagic 4 ≠ 0 then ([], .invalidFormat)
  else
    -- the results of these two receives are not looked at
    let topicLen := recvAll magic.2.1 (uninitialised.take 8) 8
    let len := (uint64Of topicLen.1).toNat
    if maxStringSize < len then ([], .threw "length_error")
    else
      let topicName := recvAll topicLen.2.1 (List.replicate len 0) len
      match create topicName.1 with
      | .error what => ([], .threw what)
      | .ok () => importLoop uninitialised others topicName.1 0 pool topicName.2.1

def Sent.published (topicName : Bytes) (msg : Sent) : Publication :=
  ⟨topicName, UInt32.ofNat msg.data.length, msg.data⟩

/-! ### What the importer accepts -/

def importFrame (data : Bytes) : Bytes := uint64Bytes (UInt64.ofNat data.length) ++ data

/-- The handshake and the frames that `do_import` is written for. -/
def importStream (topicName : StdString) (payloads : List Bytes) : Bytes :=
  importMagic ++ (uint64Bytes topicName.length ++
    (topicName.chars ++ payloads.flatMap importFrame))

theorem importLoop_frame (topicName : Bytes) (count : Nat) (pool : Pool) (data rest : Bytes)
    (some_ : 1 ≤ data.length) (fits : data.length ≤ poolSize) :
    ∃ after, importLoop uninitialised others topicName count pool (importFrame data ++ rest) =
      (⟨topicName, UInt32.ofNat data.length, data⟩ ::
          (importLoop uninitialised others topicName (count + 1) after rest).1,
        (importLoop uninitialised others topicName (count + 1) after rest).2) := by
  have size : (uint64Of (uint64Bytes (UInt64.ofNat data.length))).toNat = data.length :=
    toNat_uint64Of (Nat.lt_of_le_of_lt fits (by decide))
  obtain ⟨after, offset, loaned, inside⟩ := loanRaw_ok (others count pool) fits
  refine ⟨fill after offset data, ?_⟩
  have dataSize := recvAll_front (data ++ rest) (length_uint64Bytes (UInt64.ofNat data.length))
    (List.length_take_le 8 uninitialised)
  have payload := recvAll_front rest (rfl : data.length = data.length)
    (Nat.le_of_eq (ByteMemory.length_load after.val.data offset.toNat data.length))
  have published := publishLoaned_fill after topicName data (by omega) inside
  rw [importLoop]
  simp only [importFrame, List.append_assoc, dataSize, size, loaned, payload, published, dif_pos]

theorem importLoop_frames (topicName : Bytes) (count : Nat) (pool : Pool) (payloads : List Bytes)
    (sizes : ∀ data ∈ payloads, 1 ≤ data.length ∧ data.length ≤ poolSize) :
    importLoop uninitialised others topicName count pool (payloads.flatMap importFrame) =
      (payloads.map fun data => ⟨topicName, UInt32.ofNat data.length, data⟩, .broken) := by
  induction payloads generalizing count pool with
  | nil =>
    rw [importLoop]
    simp [recvAll]
  | cons data rest ih =>
    obtain ⟨some_, fits⟩ := sizes data List.mem_cons_self
    obtain ⟨after, imported⟩ := importLoop_frame uninitialised others topicName count pool data
      (rest.flatMap importFrame) some_ fits
    have later := ih (count + 1) after fun other member =>
      sizes other (List.mem_cons_of_mem _ member)
    rw [List.flatMap_cons, imported, later, List.map_cons]

theorem doImport_importStream (create : Bytes → Except String Unit) (pool : Pool)
    (topicName : StdString) (payloads : List Bytes)
    (sizes : ∀ data ∈ payloads, 1 ≤ data.length ∧ data.length ≤ poolSize) :
    doImport uninitialised others create pool (importStream topicName payloads) =
      match create topicName.chars with
      | .error what => ([], .threw what)
      | .ok () => (payloads.map fun data => ⟨topicName.chars, UInt32.ofNat data.length, data⟩,
          .broken) := by
  have length := topicName.toNat_length
  have magic := recvAll_front
    (uint64Bytes topicName.length ++ (topicName.chars ++ payloads.flatMap importFrame))
    length_importMagic (List.length_take_le 4 uninitialised)
  have topicLen := recvAll_front (topicName.chars ++ payloads.flatMap importFrame)
    (length_uint64Bytes topicName.length) (List.length_take_le 8 uninitialised)
  have name := recvAll_front (payloads.flatMap importFrame)
    (rfl : topicName.chars.length = topicName.chars.length)
    (Nat.le_of_eq (List.length_replicate (a := (0 : UInt8))))
  have valid : strncmp importMagic importMagic 4 = 0 := by decide
  simp only [doImport, importStream, magic, valid, topicLen, length, name, ne_eq, not_true,
    Bool.true_eq_false, or_false, if_false, Nat.not_lt.mpr topicName.fits]
  cases create topicName.chars with
  | error what => rfl
  | ok created =>
    exact importLoop_frames uninitialised others topicName.chars 0 pool payloads sizes

/-! ### What the exporter sends -/

theorem doImport_refuses (create : Bytes → Except String Unit) (pool : Pool)
    {magic : Bytes} (length : magic.length = 4) (other : strncmp magic importMagic 4 ≠ 0)
    (rest : Bytes) :
    doImport uninitialised others create pool (magic ++ rest) = ([], .invalidFormat) := by
  have received := recvAll_front rest length (List.length_take_le 4 uninitialised)
  simp only [doImport, received]
  rw [if_pos (.inr other)]

theorem doImport_nil (create : Bytes → Except String Unit) (pool : Pool) :
    doImport uninitialised others create pool [] = ([], .invalidFormat) := by
  simp [doImport, recvAll]

theorem doImport_doExport (toMsgpack : Meta → Bytes) (create : Bytes → Except String Unit)
    (pool : Pool) (topicName : StdString) (msgs : List Sent) :
    doImport uninitialised others create pool (doExport toMsgpack topicName msgs) =
      ([], .invalidFormat) := by
  cases msgs with
  | nil => exact doImport_nil uninitialised others create pool
  | cons msg rest =>
    rw [doExport, exportLoop, exportFrame, List.append_assoc]
    exact doImport_refuses uninitialised others create pool rfl (by decide) _

/-- The importer publishes what was exported exactly when nothing was exported. -/
theorem import_export_iff (toMsgpack : Meta → Bytes) (create : Bytes → Except String Unit)
    (pool : Pool) (topicName : StdString) (msgs : List Sent) :
    (doImport uninitialised others create pool (doExport toMsgpack topicName msgs)).1 =
      msgs.map (Sent.published topicName.chars) ↔ msgs = [] := by
  rw [doImport_doExport]
  exact ⟨fun same => List.map_eq_nil_iff.mp same.symm, fun none => none ▸ rfl⟩

end

def plainEncoding (m : Meta) : Bytes :=
  int32Bytes m.seq ++ (int64Bytes m.timestamp ++ (uint64Bytes m.payloadSize ++ m.topic))

theorem plainEncoding_injective : Function.Injective plainEncoding := by
  intro a b same
  cases a with | mk topic seq timestamp size =>
    cases b with | mk topic' seq' timestamp' size' =>
      simp only [plainEncoding] at same
      have first := congrArg int32Of same
      obtain ⟨_, same⟩ := List.append_inj same (by simp)
      have second := congrArg int64Of same
      obtain ⟨_, same⟩ := List.append_inj same (by simp)
      have third := congrArg uint64Of same
      obtain ⟨_, same⟩ := List.append_inj same (by simp)
      simp only [int32Of_image, int64Of_image, uint64Of_image] at first second third
      rw [first, second, third, same]

theorem import_does_not_undo_export :
    ¬ ∀ (toMsgpack : Meta → Bytes), Function.Injective toMsgpack →
      ∀ (topicName : StdString) (msgs : List Sent),
        (doImport [] (fun _ pool => pool) (fun _ => .ok ()) Pool.init
          (doExport toMsgpack topicName msgs)).1 = msgs.map (Sent.published topicName.chars) := by
  intro claim
  have imported := claim plainEncoding plainEncoding_injective ⟨[116], by decide⟩ [⟨5, [7]⟩]
  rw [doImport_doExport] at imported
  exact nomatch imported

end ComIpc.Tools
