import ComIpc.MemoryPool.Regions
import ComIpc.Tools.Bag

/-! Playing back a file that was cut off.

The player looks at the stream after the two fields in front of a payload and not after
the payload itself: a payload that is cut off is published at its full size, with
whatever the loaned block held before in place of the missing bytes.
-/

set_option autoImplicit false

namespace ComIpc.Tools

open Semantics

/-- The messages whose frames are wholly among the first `room` bytes of all frames. -/
def contained : Nat → List Recorded → List Recorded
  | _, [] => []
  | room, msg :: rest =>
    if (recordFrame msg).length ≤ room then
      msg :: contained (room - (recordFrame msg).length) rest
    else []

/-- The cut falls behind the two fields of a frame and before the end of its payload. -/
def CutInPayload : Nat → List Recorded → Prop
  | _, [] => False
  | room, msg :: rest =>
    if (recordFrame msg).length ≤ room then CutInPayload (room - (recordFrame msg).length) rest
    else (frameHeader msg).length ≤ room

section
variable (uninitialised : Bytes) (others : Nat → Pool → Pool)

/-- No empty message is loaned its block while the cursor stands at the very end of the pool. -/
def NoneAtEnd : Nat → Pool → List Recorded → Prop
  | _, _, [] => True
  | count, pool, msg :: rest =>
    (msg.data = [] → (others count pool).val.headOffset.toNat ≠ poolSize) ∧
    ∀ after offset, loanRaw (others count pool) msg.data.length = .ok (after, offset) →
      NoneAtEnd (count + 1) (fill after offset msg.data) rest

theorem length_recordFrame (msg : Recorded) :
    (recordFrame msg).length = 16 + msg.data.length := by
  rw [recordFrame_eq, List.length_append, length_frameHeader]

theorem playLoop_bad (topicName : Bytes) (count : Nat) (pool : Pool) {file : InputStream}
    (bad : file.good = false) :
    playLoop uninitialised others topicName count pool file = ([], .finished) := by
  rw [playLoop]
  split
  · rfl
  · rename_i seen
    simp [InputStream.peek_bad bad] at seen

theorem playLoop_short (topicName : Bytes) (count : Nat) (pool : Pool) {content : Bytes}
    (short : content.length < 16) :
    (playLoop uninitialised others topicName count pool (.ofFile content)).1 = [] := by
  have ended : (((InputStream.ofFile content).read (uninitialised.take 8) 8).2.read
      (uninitialised.take 8) 8).2.eof = true := by
    by_cases first : content.length < 8
    · rw [InputStream.read_short first, InputStream.read_bad (InputStream.good_failed _ _)]
    · have split : content = content.take 8 ++ content.drop 8 := (List.take_append_drop 8 _).symm
      have whole : (content.take 8).length = 8 := by simp; omega
      rw [split, InputStream.read_front _ whole (List.length_take_le 8 uninitialised),
        InputStream.read_short (by simp; omega)]
  rw [playLoop]
  split
  · rfl
  · rw [if_pos ended]

theorem loanRaw_empty {pool after : Pool} {offset : UInt32}
    (loaned : loanRaw pool 0 = .ok (after, offset)) :
    offset.toNat = pool.val.headOffset.toNat := by
  have bounded := pool.property
  unfold loanRaw at loaned
  split at loaned
  · contradiction
  · rename_i allocated offset' done
    simp only [Except.ok.injEq, Prod.mk.injEq] at loaned
    obtain ⟨_, rfl⟩ := loaned
    obtain ⟨_, placed, _⟩ := MemoryPool.allocate_place bounded done
    unfold MemoryPool.Bounded at bounded
    rw [placed, BumpRing.place, MemoryPool.rounded, if_neg (by omega)]

theorem noneAtEnd_cons {count : Nat} {pool after : Pool} {msg : Recorded} {rest : List Recorded}
    {offset : UInt32} (loaned : loanRaw (others count pool) msg.data.length = .ok (after, offset))
    (inside : offset.toNat + msg.data.length ≤ poolSize) :
    NoneAtEnd others count pool (msg :: rest) ↔
      offset.toNat < poolSize ∧ NoneAtEnd others (count + 1) (fill after offset msg.data) rest := by
  rw [NoneAtEnd]
  have here : (msg.data = [] → (others count pool).val.headOffset.toNat ≠ poolSize) ↔
      offset.toNat < poolSize := by
    constructor
    · intro below
      by_contra outside
      have empty : msg.data = [] := List.length_eq_zero_iff.mp (by omega)
      rw [empty] at loaned inside
      have cursor := loanRaw_empty loaned
      have none_ : ([] : Bytes).length = 0 := rfl
      exact below empty (by omega)
    · intro own empty
      rw [empty] at loaned
      have cursor := loanRaw_empty loaned
      omega
  have only : (∀ after' offset', loanRaw (others count pool) msg.data.length =
      .ok (after', offset') → NoneAtEnd others (count + 1) (fill after' offset' msg.data) rest) ↔
        NoneAtEnd others (count + 1) (fill after offset msg.data) rest := by
    constructor
    · exact fun every => every after offset loaned
    · rintro one after' offset' loaned'
      rw [loaned, Except.ok.injEq, Prod.mk.injEq] at loaned'
      exact loaned'.1 ▸ loaned'.2 ▸ one
  rw [here, only]

theorem publishLoaned_end (pool : Pool) (topic : Bytes) {offset : UInt32} (size : Nat)
    (outside : ¬ offset.toNat < poolSize) :
    ∃ what, publishLoaned pool topic offset size = .error what := by
  rw [publishLoaned, MemoryPool.getOffset, if_neg outside]
  exact ⟨_, rfl⟩

/-- Of a payload that is cut off something is published all the same. -/
theorem playLoop_torn (topicName : Bytes) (count : Nat) (pool : Pool) (msg : Recorded)
    {part : Bytes} (cut : part.length < msg.data.length) (fits : msg.data.length ≤ poolSize) :
    ∃ payload, payload.length = msg.data.length ∧
      (playLoop uninitialised others topicName count pool (.ofFile (frameHeader msg ++ part))).1 =
        [⟨topicName, UInt32.ofNat msg.data.length, payload⟩] := by
  obtain ⟨after, offset, loaned, inside⟩ := loanRaw_ok (others count pool) fits
  have data : (InputStream.ofFile part).read
      (after.val.data.load offset.toNat msg.data.length) msg.data.length =
      (part ++ (after.val.data.load offset.toNat msg.data.length).drop part.length,
        ⟨[], true, true⟩) := InputStream.read_short cut
  -- the missing bytes are those of the block as it was handed out
  refine ⟨part ++ (after.val.data.load offset.toNat msg.data.length).drop part.length, ?_, ?_⟩
  · simp only [List.length_append, List.length_drop, ByteMemory.length_load]
    omega
  · have full : (part ++ (after.val.data.load offset.toNat msg.data.length).drop
        part.length).length = msg.data.length := by
      simp only [List.length_append, List.length_drop, ByteMemory.length_load]
      omega
    have own : offset.toNat < poolSize := by omega
    have published := publishLoaned_fill after topicName
      (part ++ (after.val.data.load offset.toNat msg.data.length).drop part.length) own
      (by omega)
    rw [full] at published
    rw [playLoop_header uninitialised others topicName count pool msg part fits loaned]
    simp only [data, published]
    rw [playLoop_bad uninitialised others _ _ _ (InputStream.good_failed _ _)]

theorem playLoop_cut_iff (topicName : Bytes) (count : Nat) (pool : Pool) (msgs : List Recorded)
    (sizes : ∀ msg ∈ msgs, msg.data.length ≤ poolSize) (room : Nat) :
    (playLoop uninitialised others topicName count pool
        (.ofFile ((msgs.flatMap recordFrame).take room))).1 =
      (contained room msgs).map (Recorded.published topicName) ↔
    ¬ CutInPayload room msgs ∧ NoneAtEnd others count pool (contained room msgs) := by
  induction msgs generalizing count pool room with
  | nil =>
    have nothing : (playLoop uninitialised others topicName count pool (.ofFile [])).1 = [] :=
      playLoop_short uninitialised others topicName count pool (by decide)
    simp [contained, CutInPayload, NoneAtEnd, nothing]
  | cons msg rest ih =>
    have fits := sizes msg List.mem_cons_self
    have length := length_recordFrame msg
    rw [List.flatMap_cons, contained, CutInPayload]
    by_cases whole : (recordFrame msg).length ≤ room
    · obtain ⟨after, offset, loaned, inside⟩ := loanRaw_ok (others count pool) fits
      have later := ih (count + 1) (fill after offset msg.data)
        (fun other member => sizes other (List.mem_cons_of_mem _ member))
        (room - (recordFrame msg).length)
      rw [if_pos whole, if_pos whole, List.take_append, List.take_of_length_le whole,
        List.map_cons, noneAtEnd_cons others loaned inside]
      by_cases own : offset.toNat < poolSize
      · rw [playLoop_frame uninitialised others topicName count pool msg _ fits loaned own inside,
          and_iff_right own, ← later]
        exact List.cons.injEq _ _ _ _ ▸ and_iff_right rfl
      · -- the block cannot be published, and nothing after it is
        have refused : (playLoop uninitialised others topicName count pool (.ofFile
            (recordFrame msg ++
              (rest.flatMap recordFrame).take (room - (recordFrame msg).length)))).1 = [] := by
          obtain ⟨what, threw⟩ := publishLoaned_end (fill after offset
            ((InputStream.ofFile (msg.data ++
              (rest.flatMap recordFrame).take (room - (recordFrame msg).length))).read
              (after.val.data.load offset.toNat msg.data.length) msg.data.length).1) topicName
            msg.data.length own
          rw [recordFrame_eq, List.append_assoc,
            playLoop_header uninitialised others topicName count pool msg _ fits loaned]
          simp only [← recordFrame_eq, threw]
        rw [refused]
        exact iff_of_false (List.cons_ne_nil _ _ ·.symm) fun holds => own holds.2.1
    · rw [if_neg whole, if_neg whole, List.map_nil,
        List.take_append_of_le_length (Nat.le_of_not_le whole), NoneAtEnd, and_true]
      by_cases header : (frameHeader msg).length ≤ room
      · -- the two fields are there, so the player goes on to the payload
        have part : (recordFrame msg).take room =
            frameHeader msg ++ msg.data.take (room - (frameHeader msg).length) := by
          rw [recordFrame_eq, List.take_append, List.take_of_length_le header]
        have cut : (msg.data.take (room - (frameHeader msg).length)).length < msg.data.length := by
          simp only [List.length_take, length_frameHeader] at header ⊢
          omega
        obtain ⟨payload, _, played⟩ :=
          playLoop_torn uninitialised others topicName count pool msg cut fits
        rw [part, played]
        exact iff_of_false (List.cons_ne_nil _ _) (not_not_intro header)
      · refine iff_of_true (playLoop_short uninitialised others topicName count pool ?_) header
        simp only [List.length_take, length_frameHeader] at header ⊢
        omega

theorem doPlay_bad (create : Bytes → Except String Unit) (pool : Pool) (content : Bytes)
    (bad : ∀ len, ((((InputStream.ofFile content).read (uninitialised.take 4) 4).2.read
      (uninitialised.take 8) 8).1 |> uint64Of).toNat = len →
      ((((InputStream.ofFile content).read (uninitialised.take 4) 4).2.read
        (uninitialised.take 8) 8).2.read (List.replicate len 0) len).2.good = false) :
    (doPlay uninitialised others create pool (some content)).1 = [] := by
  simp only [doPlay]
  split
  · rfl
  · split
    · rfl
    · split
      · rfl
      · rw [playLoop_bad uninitialised others _ _ _ (bad _ rfl)]

theorem doPlay_cut_header (create : Bytes → Except String Unit) (pool : Pool)
    (topicName : StdString) {n : Nat} (short : n < (recordHeader topicName).length) :
    (doPlay uninitialised others create pool (some ((recordHeader topicName).take n))).1 = [] := by
  have header : (recordHeader topicName).length = 4 + (8 + topicName.chars.length) := by
    simp [recordHeader, length_bagMagic]
  have failed : ∀ (rest : Bytes) (eof : Bool) (buffer : Bytes) (size : Nat),
      ((⟨rest, eof, true⟩ : InputStream).read buffer size).2 = ⟨rest, eof, true⟩ := by
    intro rest eof buffer size
    rw [InputStream.read_bad (InputStream.good_failed rest eof)]
  refine doPlay_bad uninitialised others create pool _ fun len length => ?_
  by_cases magic : n < 4
  · rw [InputStream.read_short (by simp; omega), failed, failed, InputStream.good_failed]
  · have first : (recordHeader topicName).take n =
        bagMagic ++ (uint64Bytes topicName.length ++ topicName.chars).take (n - 4) := by
      rw [recordHeader, List.take_append, List.take_of_length_le (by rw [length_bagMagic]; omega),
        length_bagMagic]
    rw [first, InputStream.read_front _ length_bagMagic (List.length_take_le 4 uninitialised)]
      at length ⊢
    by_cases field : n < 12
    · rw [InputStream.read_short (by simp; omega), failed, InputStream.good_failed]
    · have second : (uint64Bytes topicName.length ++ topicName.chars).take (n - 4) =
          uint64Bytes topicName.length ++ topicName.chars.take (n - 12) := by
        rw [List.take_append, List.take_of_length_le (by rw [length_uint64Bytes]; omega),
          length_uint64Bytes, Nat.sub_sub]
      rw [second, InputStream.read_front _ (length_uint64Bytes topicName.length)
        (List.length_take_le 8 uninitialised)] at length ⊢
      -- the name is cut, and its length is known
      rw [topicName.toNat_length] at length
      rw [InputStream.read_short (by simp; omega), InputStream.good_failed]

def PublishesContained (create : Bytes → Except String Unit) (pool : Pool)
    (topicName : StdString) (msgs : List Recorded) (n : Nat) : Prop :=
  (doPlay uninitialised others create pool (some ((doRecord topicName msgs).take n))).1 =
    (contained (n - (recordHeader topicName).length) msgs).map
      (Recorded.published topicName.chars)

/-- Of a recording that was cut off anywhere the player publishes exactly the whole frames, if
and only if the cut does not fall between the two fields of a frame and the end of its
payload, no empty message is refused its block, and the publisher can be constructed. -/
theorem play_cut_iff (create : Bytes → Except String Unit) (pool : Pool) (topicName : StdString)
    (msgs : List Recorded) (sizes : ∀ msg ∈ msgs, msg.data.length ≤ poolSize) (n : Nat) :
    PublishesContained uninitialised others create pool topicName msgs n ↔
      match create topicName.chars with
      | .error _ => contained (n - (recordHeader topicName).length) msgs = []
      | .ok () => ¬ CutInPayload (n - (recordHeader topicName).length) msgs ∧
        NoneAtEnd others 0 pool (contained (n - (recordHeader topicName).length) msgs) := by
  rw [PublishesContained, doRecord_eq]
  by_cases short : n < (recordHeader topicName).length
  · have before : n - (recordHeader topicName).length = 0 := by omega
    have nothing : contained 0 msgs = [] ∧ ¬ CutInPayload 0 msgs := by
      cases msgs with
      | nil => exact ⟨rfl, id⟩
      | cons msg rest =>
        have length := length_recordFrame msg
        simp [contained, CutInPayload, length]
    rw [List.take_append_of_le_length (Nat.le_of_lt short),
      doPlay_cut_header uninitialised others create pool topicName short, before, nothing.1]
    cases create topicName.chars with
    | error what => simp
    | ok created => simp [nothing.2, NoneAtEnd]
  · have past : (recordHeader topicName ++ msgs.flatMap recordFrame).take n =
        recordHeader topicName ++
          (msgs.flatMap recordFrame).take (n - (recordHeader topicName).length) := by
      rw [List.take_append, List.take_of_length_le (Nat.le_of_not_lt short)]
    rw [past, doPlay_header]
    cases create topicName.chars with
    | error what =>
      exact ⟨fun none_ => List.map_eq_nil_iff.mp none_.symm, fun none_ => by rw [none_]; rfl⟩
    | ok created => exact playLoop_cut_iff uninitialised others topicName.chars 0 pool msgs sizes _

theorem play_cut_iff_size :
    PublishesContained [] (fun _ pool => pool) (fun _ => .ok ()) Pool.init ⟨[116], by decide⟩
      [⟨5, [7]⟩, ⟨6, [8, 9]⟩] 42 := by
  have sizes : ∀ msg ∈ [(⟨5, [7]⟩ : Recorded), ⟨6, [8, 9]⟩], msg.data.length ≤ poolSize := by
    decide
  refine (play_cut_iff [] (fun _ pool => pool) (fun _ => .ok ()) Pool.init ⟨[116], by decide⟩ _
    sizes 42).mpr ?_
  have header : (recordHeader ⟨[116], by decide⟩).length = 13 := by decide
  simp [header, CutInPayload, contained, length_recordFrame, NoneAtEnd]

/-- The only payload byte is missing, and the byte that stood in the block is published. -/
theorem torn_payload_published :
    ¬ ∀ n, PublishesContained [] (fun _ pool => pool) (fun _ => .ok ()) Pool.init
      ⟨[116], by decide⟩ [⟨5, [7]⟩] n := by
  intro claim
  have published := claim 29
  have header : (recordHeader ⟨[116], by decide⟩).length = 13 := by decide
  have cut : (doRecord ⟨[116], by decide⟩ [⟨5, [7]⟩]).take 29 =
      recordHeader ⟨[116], by decide⟩ ++ (frameHeader ⟨5, [7]⟩ ++ []) := by decide
  have empty : ([] : Bytes).length < 1 := by decide
  obtain ⟨payload, _, played⟩ :=
    playLoop_torn [] (fun _ pool => pool) [116] 0 Pool.init ⟨5, [7]⟩ empty (by decide)
  rw [PublishesContained, cut, doPlay_header, header] at published
  simp only [played] at published
  simp [contained, length_recordFrame] at published

end

end ComIpc.Tools
