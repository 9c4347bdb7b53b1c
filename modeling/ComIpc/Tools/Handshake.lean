import ComIpc.Tools.Router
import ComIpc.Tools.Truncated

/-! What the importer makes of an arbitrary stream.

The results of the receives of the topic's length and of its name are not looked at, so a
stream that is cut off within them still names a topic: the missing bytes are those that
the buffers held before.
-/

set_option autoImplicit false

namespace ComIpc.Tools

open Semantics

/-! ### The format -/

/-- The frames at the front of a stream that are completely there, up to the first one that is
larger than the pool. -/
def wholeFrames (stream : Bytes) : List Bytes :=
  let size := (uint64Of stream).toNat
  if _whole : 8 ≤ stream.length ∧ 8 + size ≤ stream.length ∧ size ≤ poolSize then
    (stream.drop 8).take size :: wholeFrames (stream.drop (8 + size))
  else []
  termination_by stream.length
  decreasing_by
    simp only [List.length_drop]
    omega

def Shakes (stream : Bytes) (topicName : StdString) (rest : Bytes) : Prop :=
  stream = importMagic ++ (uint64Bytes topicName.length ++ (topicName.chars ++ rest))

theorem wholeFrames_front {stream : Bytes} (field : 8 ≤ stream.length)
    (payload : 8 + (uint64Of stream).toNat ≤ stream.length)
    (fits : (uint64Of stream).toNat ≤ poolSize) :
    wholeFrames stream = (stream.drop 8).take (uint64Of stream).toNat ::
      wholeFrames (stream.drop (8 + (uint64Of stream).toNat)) := by
  rw [wholeFrames]
  exact dif_pos ⟨field, payload, fits⟩

theorem wholeFrames_none {stream : Bytes} (torn : ¬ (8 ≤ stream.length ∧
    8 + (uint64Of stream).toNat ≤ stream.length ∧ (uint64Of stream).toNat ≤ poolSize)) :
    wholeFrames stream = [] := by
  rw [wholeFrames]
  exact dif_neg torn

theorem wholeFrames_importFrames (payloads : List Bytes)
    (sizes : ∀ data ∈ payloads, data.length ≤ poolSize) (tail : Bytes) :
    wholeFrames (payloads.flatMap importFrame ++ tail) = payloads ++ wholeFrames tail := by
  induction payloads with
  | nil => rfl
  | cons data rest ih =>
    have fits := sizes data List.mem_cons_self
    have later := ih fun other member => sizes other (List.mem_cons_of_mem _ member)
    have size : (uint64Of ((data :: rest).flatMap importFrame ++ tail)).toNat = data.length := by
      rw [List.flatMap_cons, importFrame, List.append_assoc, List.append_assoc, uint64Of_image,
        UInt64.toNat_ofNat', Nat.mod_eq_of_lt (Nat.lt_of_le_of_lt fits (by decide))]
    have length : ((data :: rest).flatMap importFrame ++ tail).length =
        8 + data.length + (rest.flatMap importFrame ++ tail).length := by
      simp [importFrame, Nat.add_assoc]
    rw [wholeFrames_front (by omega) (by omega) (by omega), size]
    have shape : (data :: rest).flatMap importFrame ++ tail =
        uint64Bytes (UInt64.ofNat data.length) ++ (data ++ (rest.flatMap importFrame ++ tail)) := by
      simp [importFrame]
    have field := length_uint64Bytes (UInt64.ofNat data.length)
    rw [shape, ← List.drop_drop, List.drop_left' field, List.take_left, List.drop_left, later]
    rfl

/-- What is read is at the front of the stream, and behind it there is no other whole frame. -/
theorem wholeFrames_split (stream : Bytes) :
    ∃ tail, stream = (wholeFrames stream).flatMap importFrame ++ tail ∧ wholeFrames tail = [] := by
  induction stream using wholeFrames.induct with
  | case1 stream size whole ih =>
    obtain ⟨tail, rest, none_⟩ := ih
    refine ⟨tail, ?_, none_⟩
    have field : 8 ≤ stream.length := whole.1
    have payload : 8 + (uint64Of stream).toNat ≤ stream.length := whole.2.1
    have length : ((stream.drop 8).take (uint64Of stream).toNat).length = (uint64Of stream).toNat :=
      List.length_take_of_le (by rw [List.length_drop]; omega)
    rw [wholeFrames_front field payload whole.2.2, List.flatMap_cons, List.append_assoc,
      importFrame, length, UInt64.ofNat_toNat, uint64Bytes_of field, ← rest, ← List.drop_drop]
    simp only [size, List.append_assoc, List.take_append_drop]
  | case2 stream size torn =>
    exact ⟨stream, by rw [wholeFrames_none torn]; rfl, wholeFrames_none torn⟩

/-! ### The loop -/

section
variable (uninitialised : Bytes) (others : Nat → Pool → Pool)

theorem importLoop_whole (topicName : Bytes) (count : Nat) (pool : Pool) {stream : Bytes}
    (field : 8 ≤ stream.length) (payload : 8 + (uint64Of stream).toNat ≤ stream.length)
    {after : Pool} {offset : UInt32}
    (loaned : loanRaw (others count pool) (uint64Of stream).toNat = .ok (after, offset)) :
    importLoop uninitialised others topicName count pool stream =
      let data := (stream.drop 8).take (uint64Of stream).toNat
      match publishLoaned (fill after offset data) topicName offset data.length with
      | .error what => ([], .threw what)
      | .ok published =>
        let later := importLoop uninitialised others topicName (count + 1) (fill after offset data)
          (stream.drop (8 + (uint64Of stream).toNat))
        (published :: later.1, later.2) := by
  have size : uint64Of (stream.take 8) = uint64Of stream := by
    rw [uint64Of, List.take_take, Nat.min_self, uint64Of]
  have first := recvAll_enough field (List.length_take_le 8 uninitialised)
  have second : recvAll (stream.drop 8) (after.val.data.load offset.toNat (uint64Of stream).toNat)
      (uint64Of stream).toNat = ((stream.drop 8).take (uint64Of stream).toNat,
        (stream.drop 8).drop (uint64Of stream).toNat, true) :=
    recvAll_enough (by rw [List.length_drop]; omega)
      (Nat.le_of_eq (ByteMemory.length_load _ _ _))
  have length : ((stream.drop 8).take (uint64Of stream).toNat).length = (uint64Of stream).toNat :=
    List.length_take_of_le (by rw [List.length_drop]; omega)
  rw [importLoop]
  cases sent : publishLoaned (fill after offset ((stream.drop 8).take (uint64Of stream).toNat))
      topicName offset (uint64Of stream).toNat with
  | error what => simp only [first, size, loaned, second, dif_pos, length, sent]
  | ok published =>
    simp only [first, size, loaned, second, dif_pos, length, sent, List.drop_drop]

theorem importLoop_torn (topicName : Bytes) (count : Nat) (pool : Pool) {stream : Bytes}
    (torn : ¬ (8 ≤ stream.length ∧ 8 + (uint64Of stream).toNat ≤ stream.length ∧
      (uint64Of stream).toNat ≤ poolSize)) :
    (importLoop uninitialised others topicName count pool stream).1 = [] := by
  rw [importLoop]
  by_cases field : 8 ≤ stream.length
  · have size : uint64Of (stream.take 8) = uint64Of stream := by
      rw [uint64Of, List.take_take, Nat.min_self, uint64Of]
    have first := recvAll_enough field (List.length_take_le 8 uninitialised)
    simp only [first, size, dif_pos]
    split
    · rfl
    · rename_i after offset loaned
      -- a block that could be loaned is not too large, so the payload is cut off
      have fits : (uint64Of stream).toNat ≤ poolSize := by
        by_contra large
        unfold loanRaw at loaned
        split at loaned
        · contradiction
        · rename_i done
          simp [MemoryPool.allocate, Nat.lt_of_not_le large] at done
      have short : (stream.drop 8).length < (uint64Of stream).toNat := by
        rw [List.length_drop]
        omega
      have ended := recvAll_short short
        (after.val.data.load offset.toNat (uint64Of stream).toNat)
      rw [dif_neg (by rw [ended]; exact Bool.false_ne_true)]
  · have ended := recvAll_short (Nat.lt_of_not_le field) (uninitialised.take 8)
    rw [dif_neg (by rw [ended]; exact Bool.false_ne_true)]

def onTopic (topicName data : Bytes) : Publication := ⟨topicName, UInt32.ofNat data.length, data⟩

theorem onTopic_named {topicName : Bytes} {datas : List Bytes} :
    (∀ p ∈ datas.map (onTopic topicName), p.topic.bytes = topicName) ↔
      (0 ∈ topicName → datas = []) := by
  have named (data : Bytes) : (onTopic topicName data).topic.bytes = topicName ↔
      0 ∉ topicName := cstr_eq_iff
  rw [List.forall_mem_map]
  constructor
  · intro all nul
    refine List.eq_nil_iff_forall_not_mem.mpr fun data member => ?_
    exact (named data).mp (all data member) nul
  · intro none data member
    refine (named data).mpr fun nul => ?_
    rw [none nul] at member
    exact absurd member List.not_mem_nil

def imported (data : Bytes) : Recorded := ⟨0, data⟩

theorem importLoop_iff (topicName : Bytes) (count : Nat) (pool : Pool) (stream : Bytes) :
    (importLoop uninitialised others topicName count pool stream).1 =
      (wholeFrames stream).map (onTopic topicName) ↔
    NoneAtEnd others count pool ((wholeFrames stream).map imported) := by
  induction stream using wholeFrames.induct generalizing count pool with
  | case1 stream size whole ih =>
    have field : 8 ≤ stream.length := whole.1
    have payload : 8 + (uint64Of stream).toNat ≤ stream.length := whole.2.1
    have fits : (uint64Of stream).toNat ≤ poolSize := whole.2.2
    obtain ⟨after, offset, loaned, inside⟩ := loanRaw_ok (others count pool) fits
    have length : ((stream.drop 8).take (uint64Of stream).toNat).length = (uint64Of stream).toNat :=
      List.length_take_of_le (by rw [List.length_drop]; omega)
    have loop := importLoop_whole uninitialised others topicName count pool field payload loaned
    rw [← length] at loaned inside
    have frame : loanRaw (others count pool)
        (imported ((stream.drop 8).take (uint64Of stream).toNat)).data.length =
          .ok (after, offset) := loaned
    rw [wholeFrames_front field payload fits, List.map_cons, List.map_cons,
      noneAtEnd_cons others frame inside, loop]
    by_cases own : offset.toNat < poolSize
    · have published := publishLoaned_fill after topicName _ own inside
      have later := ih (count + 1)
        (fill after offset ((stream.drop 8).take (uint64Of stream).toNat))
      simp only [published, and_iff_right own, List.cons.injEq, onTopic, true_and]
      exact later
    · obtain ⟨what, threw⟩ := publishLoaned_end
        (fill after offset ((stream.drop 8).take (uint64Of stream).toNat)) topicName
        ((stream.drop 8).take (uint64Of stream).toNat).length own
      simp only [threw]
      exact iff_of_false (List.cons_ne_nil _ _ ·.symm) fun holds => own holds.1
  | case2 stream size torn =>
    rw [wholeFrames_none torn]
    exact iff_of_true (importLoop_torn uninitialised others topicName count pool torn) trivial

/-! ### The handshake -/

/-- The length that the topic name is taken to have: of the field the bytes that came, and behind
them what the variable held before. -/
def givenLength (stream : Bytes) : Nat :=
  (uint64Of (recvAll (stream.drop 4) (uninitialised.take 8) 8).1).toNat

/-- The name that is given to the publisher: the bytes that came, and zeros behind them. -/
def givenName (stream : Bytes) : Bytes :=
  (recvAll (stream.drop 12) (List.replicate (givenLength uninitialised stream) 0)
    (givenLength uninitialised stream)).1

/-- `do_import` up to the constructor of the publisher: how it ends before, or the name and what is
left of the stream. -/
def handshake (stream : Bytes) : Except End (Bytes × Bytes) :=
  let magic := recvAll stream (uninitialised.take 4) 4
  if magic.2.2 = false ∨ strncmp magic.1 importMagic 4 ≠ 0 then .error .invalidFormat
  else if maxStringSize < givenLength uninitialised stream then .error (.threw "length_error")
  else .ok (givenName uninitialised stream, stream.drop (12 + givenLength uninitialised stream))

theorem doImport_eq (create : Bytes → Except String Unit) (pool : Pool) (stream : Bytes) :
    doImport uninitialised others create pool stream =
      match handshake uninitialised stream with
      | .error how => ([], how)
      | .ok (topicName, rest) =>
        match create topicName with
        | .error what => ([], .threw what)
        | .ok () => importLoop uninitialised others topicName 0 pool rest := by
  have rest (n : Nat) : stream.drop (12 + n) = (stream.drop 12).drop n := List.drop_drop.symm
  have field : (stream.drop 4).drop 8 = stream.drop 12 := List.drop_drop
  unfold doImport handshake
  by_cases magic : (recvAll stream (uninitialised.take 4) 4).2.2 = false ∨
      strncmp (recvAll stream (uninitialised.take 4) 4).1 importMagic 4 ≠ 0
  · simp only [if_pos magic]
  · simp only [if_neg magic, rest]
    by_cases long : maxStringSize < givenLength uninitialised stream
    · rw [if_pos long]
      exact if_pos long
    · rw [if_neg long]
      refine (if_neg long).trans ?_
      have name : (recvAll (stream.drop 12) (List.replicate (givenLength uninitialised stream) 0)
          (givenLength uninitialised stream)).1 = givenName uninitialised stream := rfl
      simp only [givenLength, recvAll, field]
      simp only [givenLength, recvAll, field] at name
      cases made : create (givenName uninitialised stream) with
      | error what => simp only [name, made]
      | ok => simp only [name, made]

theorem strncmp_importMagic {magic : Bytes} (length : magic.length = 4) :
    strncmp magic importMagic 4 = 0 ↔ magic = importMagic := by
  rw [strncmp_eq_zero_iff]
  constructor
  · intro same
    have view : (cstr importMagic).take 4 = importMagic := by decide
    have front : (cstr magic).take 4 <+: magic :=
      (List.take_prefix _ _).trans (List.takeWhile_prefix _)
    rw [same, view] at front
    exact (front.eq_of_length (by rw [length, length_importMagic])).symm
  · rintro rfl
    rfl

theorem handshake_magic {stream : Bytes} (magic : stream.take 4 = importMagic) :
    handshake uninitialised stream =
      if maxStringSize < givenLength uninitialised stream then .error (.threw "length_error")
      else .ok (givenName uninitialised stream,
        stream.drop (12 + givenLength uninitialised stream)) := by
  have enough : 4 ≤ stream.length := by
    have length := congrArg List.length magic
    rw [List.length_take, length_importMagic] at length
    omega
  have received := recvAll_enough enough (List.length_take_le 4 uninitialised)
  have same : strncmp importMagic importMagic 4 = 0 := by decide
  unfold handshake
  simp only [received, magic, same, ne_eq, not_true, Bool.true_eq_false, or_false, if_false]

theorem handshake_other {stream : Bytes} (other : stream.take 4 ≠ importMagic) :
    handshake uninitialised stream = .error .invalidFormat := by
  unfold handshake
  refine if_pos ?_
  by_cases enough : 4 ≤ stream.length
  · have received := recvAll_enough enough (List.length_take_le 4 uninitialised)
    rw [received]
    exact .inr ((strncmp_importMagic (List.length_take_of_le enough)).not.mpr other)
  · exact .inl (recvAll_short (Nat.lt_of_not_le enough) _)

theorem Shakes.magic {stream rest : Bytes} {topicName : StdString}
    (shakes : Shakes stream topicName rest) : stream.take 4 = importMagic := by
  rw [shakes]
  exact List.take_left' length_importMagic

theorem Shakes.handshake {stream rest : Bytes} {topicName : StdString}
    (shakes : Shakes stream topicName rest) :
    Tools.handshake uninitialised stream = .ok (topicName.chars, rest) := by
  have behind : stream.drop 4 = uint64Bytes topicName.length ++ (topicName.chars ++ rest) := by
    rw [shakes]
    exact List.drop_left' length_importMagic
  have name : stream.drop 12 = topicName.chars ++ rest := by
    rw [← List.drop_drop (i := 8) (j := 4), behind]
    exact List.drop_left' (length_uint64Bytes _)
  have length : givenLength uninitialised stream = topicName.chars.length := by
    have field := recvAll_front (topicName.chars ++ rest) (length_uint64Bytes topicName.length)
      (List.length_take_le 8 uninitialised)
    rw [givenLength, behind, field, topicName.toNat_length]
  have received := recvAll_front rest (rfl : topicName.chars.length = topicName.chars.length)
    (Nat.le_of_eq (List.length_replicate (a := (0 : UInt8))))
  rw [handshake_magic uninitialised shakes.magic, length,
    if_neg (Nat.not_lt.mpr topicName.fits), givenName, length, name, received,
    ← List.drop_drop, name, List.drop_left]

def CreatesPublisher (create : Bytes → Except String Unit) (stream : Bytes) : Prop :=
  ∃ topicName rest, handshake uninitialised stream = .ok (topicName, rest) ∧
    create topicName = .ok ()

/-- Behind a whole handshake the whole frames are published by a publisher of its name, on the
topic of exactly that name; without one there is no publisher. -/
structure ImportsRight (create : Bytes → Except String Unit) (pool : Pool) (stream : Bytes) :
    Prop where
  contained : ∀ topicName rest, Shakes stream topicName rest →
    (doImport uninitialised others create pool stream).1 =
        (wholeFrames rest).map (onTopic topicName.chars) ∧
      ∀ p ∈ (doImport uninitialised others create pool stream).1,
        p.topic.bytes = topicName.chars
  refused : (∀ topicName rest, ¬ Shakes stream topicName rest) →
    ¬ CreatesPublisher uninitialised create stream ∧
      (doImport uninitialised others create pool stream).1 = []

theorem doImport_created (create : Bytes → Except String Unit) (pool : Pool) {stream : Bytes}
    (none_ : ¬ CreatesPublisher uninitialised create stream) :
    (doImport uninitialised others create pool stream).1 = [] := by
  rw [doImport_eq]
  cases shaken : handshake uninitialised stream with
  | error how => rfl
  | ok given =>
    obtain ⟨topicName, rest⟩ := given
    cases created : create topicName with
    | error what => simp only [created]
    | ok => exact absurd ⟨topicName, rest, shaken, created⟩ none_

/-- For every stream: the importer keeps to the format if and only if, behind a whole handshake,
there is nothing to publish, or the publisher can be constructed, its name has no NUL and no empty
frame is loaned the end of the pool, and otherwise no publisher can be constructed for what came
behind the magic characters. -/
theorem imports_right_iff (create : Bytes → Except String Unit) (pool : Pool) (stream : Bytes) :
    ImportsRight uninitialised others create pool stream ↔
      (∀ topicName rest, Shakes stream topicName rest → match create topicName.chars with
        | .error _ => wholeFrames rest = []
        | .ok () => (0 ∈ topicName.chars → wholeFrames rest = []) ∧
            NoneAtEnd others 0 pool ((wholeFrames rest).map imported)) ∧
      ((∀ topicName rest, ¬ Shakes stream topicName rest) → stream.take 4 = importMagic →
        maxStringSize < givenLength uninitialised stream ∨
          ∃ what, create (givenName uninitialised stream) = .error what) := by
  have whole : ∀ topicName rest, Shakes stream topicName rest →
      ((doImport uninitialised others create pool stream).1 =
          (wholeFrames rest).map (onTopic topicName.chars) ∧
        (∀ p ∈ (doImport uninitialised others create pool stream).1,
          p.topic.bytes = topicName.chars) ↔ match create topicName.chars with
          | .error _ => wholeFrames rest = []
          | .ok () => (0 ∈ topicName.chars → wholeFrames rest = []) ∧
              NoneAtEnd others 0 pool ((wholeFrames rest).map imported)) := by
    intro topicName rest shakes
    rw [doImport_eq, shakes.handshake]
    cases created : create topicName.chars with
    | error what =>
      simp only [created]
      rw [eq_comm, List.map_eq_nil_iff]
      exact and_iff_left fun p member => absurd member List.not_mem_nil
    | ok =>
      simp only [created]
      rw [← importLoop_iff uninitialised others topicName.chars 0 pool rest, and_comm]
      refine and_congr_left fun published => ?_
      rw [published, onTopic_named]
  have torn : ¬ CreatesPublisher uninitialised create stream ↔ (stream.take 4 = importMagic →
      maxStringSize < givenLength uninitialised stream ∨
        ∃ what, create (givenName uninitialised stream) = .error what) := by
    by_cases magic : stream.take 4 = importMagic
    · rw [CreatesPublisher, handshake_magic uninitialised magic, forall_prop_of_true magic]
      by_cases long : maxStringSize < givenLength uninitialised stream
      · simp [long]
      · cases created : create (givenName uninitialised stream) with
        | error what => simp [long, created]
        | ok => simp [long, created]
    · rw [CreatesPublisher, handshake_other uninitialised magic]
      exact iff_of_true (fun ⟨_, _, shaken, _⟩ => nomatch shaken) fun same => absurd same magic
  constructor
  · intro right
    refine ⟨fun topicName rest shakes => ?_, fun none_ => torn.mp (right.refused none_).1⟩
    exact (whole topicName rest shakes).mp (right.contained topicName rest shakes)
  · rintro ⟨contained, refused⟩
    constructor
    · exact fun topicName rest shakes =>
        (whole topicName rest shakes).mpr (contained topicName rest shakes)
    · intro none_
      have absent := torn.mpr (refused none_)
      exact ⟨absent, doImport_created uninitialised others create pool absent⟩

end

/-- A stream that ends behind the magic characters registers the topic without a name. -/
theorem unnamed_topic_created :
    ¬ ∀ stream, ImportsRight (List.replicate 8 0) (fun _ pool => pool) (fun _ => .ok ()) Pool.init
      stream := by
  intro claim
  have short : ∀ topicName rest, ¬ Shakes importMagic topicName rest := by
    intro topicName rest shakes
    have length := congrArg List.length shakes
    simp only [List.length_append, length_uint64Bytes] at length
    omega
  have given : handshake (List.replicate 8 0) importMagic = .ok ([], []) := by decide
  exact ((claim importMagic).refused short).1 ⟨[], [], given, rfl⟩

end ComIpc.Tools
