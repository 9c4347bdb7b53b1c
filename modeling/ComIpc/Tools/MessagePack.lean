import ComIpc.Semantics.OrderedMap
import ComIpc.Semantics.Scanners
import ComIpc.Types

/-! The MessagePack writer and reader of the vendored JSON library.

The exporter packs the metadata of a message with the writer. The reader gives every value
back as it was, except that MessagePack does not tell a signed number that is not negative
from an unsigned one.
-/

set_option autoImplicit false

namespace ComIpc.Tools

open Semantics

/-- A `basic_json` without floating point numbers and byte strings. The members of an object
are in the order of a `std::map`. -/
inductive Json where
  | null
  | boolean (value : Bool)
  | numberInteger (value : Int64)
  | numberUnsigned (value : UInt64)
  | string (value : Bytes)
  | array (elements : List Json)
  | object (members : List (Bytes × Json))

namespace Json

abbrev writeNumber : Nat → Nat → Bytes := Scanner.bigEndian

def writeUnsigned (n : UInt64) : Bytes :=
  if n.toNat < 128 then writeNumber 1 n.toNat
  else if n.toNat ≤ 0xFF then 0xCC :: writeNumber 1 n.toNat
  else if n.toNat ≤ 0xFFFF then 0xCD :: writeNumber 2 n.toNat
  else if n.toNat ≤ 0xFFFFFFFF then 0xCE :: writeNumber 4 n.toNat
  else 0xCF :: writeNumber 8 n.toNat

def writeInteger (n : Int64) : Bytes :=
  if 0 ≤ n.toInt then writeUnsigned n.toUInt64
  else if -32 ≤ n.toInt then writeNumber 1 n.toUInt64.toNat
  else if -0x80 ≤ n.toInt ∧ n.toInt ≤ 0x7F then 0xD0 :: writeNumber 1 n.toUInt64.toNat
  else if -0x8000 ≤ n.toInt ∧ n.toInt ≤ 0x7FFF then 0xD1 :: writeNumber 2 n.toUInt64.toNat
  else if -0x80000000 ≤ n.toInt ∧ n.toInt ≤ 0x7FFFFFFF then
    0xD2 :: writeNumber 4 n.toUInt64.toNat
  else 0xD3 :: writeNumber 8 n.toUInt64.toNat

/-- A string of 2^32 bytes or more gets no control byte and no length. -/
def writeString (s : Bytes) : Bytes :=
  let N := s.length
  (if N ≤ 31 then [UInt8.ofNat (0xA0 ||| N)]
    else if N ≤ 0xFF then 0xD9 :: writeNumber 1 N
    else if N ≤ 0xFFFF then 0xDA :: writeNumber 2 N
    else if N ≤ 0xFFFFFFFF then 0xDB :: writeNumber 4 N
    else []) ++ s

def writeSize (fixed sized16 sized32 : UInt8) (N : Nat) : Bytes :=
  if N ≤ 15 then [fixed ||| UInt8.ofNat N]
  else if N ≤ 0xFFFF then sized16 :: writeNumber 2 N
  else if N ≤ 0xFFFFFFFF then sized32 :: writeNumber 4 N
  else []

mutual

def writeMsgpack : Json → Bytes
  | null => [0xC0]
  | boolean value => [if value then 0xC3 else 0xC2]
  | numberInteger value => writeInteger value
  | numberUnsigned value => writeUnsigned value
  | string value => writeString value
  | array elements => writeSize 0x90 0xDC 0xDD elements.length ++ writeElements elements
  | object members => writeSize 0x80 0xDE 0xDF members.length ++ writeMembers members

def writeElements : List Json → Bytes
  | [] => []
  | element :: rest => writeMsgpack element ++ writeElements rest

def writeMembers : List (Bytes × Json) → Bytes
  | [] => []
  | (key, value) :: rest => (writeString key ++ writeMsgpack value) ++ writeMembers rest

end

/-! ### The reader -/

open Scanner (next fail times number symbols Takes)

def signed (width n : Nat) : Int64 := Int64.ofInt (Int.bmod n (256 ^ width))

def getMsgpackString (current : UInt8) : Scanner UInt8 Bytes :=
  if 0xA0 ≤ current ∧ current ≤ 0xBF then symbols (current &&& 0x1F).toNat
  else if current = 0xD9 then number 1 >>= symbols
  else if current = 0xDA then number 2 >>= symbols
  else if current = 0xDB then number 4 >>= symbols
  else fail

section
-- `nested` is the call of `parse_msgpack_internal` for an element.
variable (nested : Scanner UInt8 Json)

def getMsgpackArray (len : Nat) : Scanner UInt8 Json :=
  array <$> times (fun elements => do
    let element ← nested
    pure (elements ++ [element])) len []

/-- A key that is there already gets the later value. -/
def getMsgpackObject (len : Nat) : Scanner UInt8 Json :=
  object <$> times (fun members => do
    let current ← next
    let key ← getMsgpackString current
    let value ← nested
    pure (OrderedMap.insertEntry key value members)) len []

/-- The switch of `parse_msgpack_internal`. -/
def parseControl (current : UInt8) : Scanner UInt8 Json :=
  if current ≤ 0x7F then pure (numberUnsigned current.toUInt64)
  else if current ≤ 0x8F then getMsgpackObject nested (current &&& 0x0F).toNat
  else if current ≤ 0x9F then getMsgpackArray nested (current &&& 0x0F).toNat
  else if current ≤ 0xBF then string <$> getMsgpackString current
  else if 0xE0 ≤ current then pure (numberInteger (signed 1 current.toNat))
  else match current.toNat with
    | 0xC0 => pure null
    | 0xC2 => pure (boolean false)
    | 0xC3 => pure (boolean true)
    | 0xCC => (fun n => numberUnsigned (UInt64.ofNat n)) <$> number 1
    | 0xCD => (fun n => numberUnsigned (UInt64.ofNat n)) <$> number 2
    | 0xCE => (fun n => numberUnsigned (UInt64.ofNat n)) <$> number 4
    | 0xCF => (fun n => numberUnsigned (UInt64.ofNat n)) <$> number 8
    | 0xD0 => (fun n => numberInteger (signed 1 n)) <$> number 1
    | 0xD1 => (fun n => numberInteger (signed 2 n)) <$> number 2
    | 0xD2 => (fun n => numberInteger (signed 4 n)) <$> number 4
    | 0xD3 => (fun n => numberInteger (signed 8 n)) <$> number 8
    | 0xD9 | 0xDA | 0xDB => string <$> getMsgpackString current
    | 0xDC => number 2 >>= getMsgpackArray nested
    | 0xDD => number 4 >>= getMsgpackArray nested
    | 0xDE => number 2 >>= getMsgpackObject nested
    | 0xDF => number 4 >>= getMsgpackObject nested
    -- `default`, and the values that `Json` leaves out
    | _ => fail

end

def parseMsgpackInternal : Nat → Scanner UInt8 Json
  | 0 => fail
  | depth + 1 => next >>= parseControl (parseMsgpackInternal depth)

/-- Values are nested at most as deep as there are bytes. -/
def fromMsgpack (bytes : Bytes) : Option Json :=
  (parseMsgpackInternal bytes.length).strict bytes

/-! ### What comes back -/

mutual

def reread : Json → Json
  | numberInteger value =>
    if 0 ≤ value.toInt then numberUnsigned value.toUInt64 else numberInteger value
  | array elements => array (rereadElements elements)
  | object members => object (rereadMembers members)
  | null => null
  | boolean value => boolean value
  | numberUnsigned value => numberUnsigned value
  | string value => string value

def rereadElements : List Json → List Json
  | [] => []
  | element :: rest => reread element :: rereadElements rest

def rereadMembers : List (Bytes × Json) → List (Bytes × Json)
  | [] => []
  | (key, value) :: rest => (key, reread value) :: rereadMembers rest

end

inductive Fits : Json → Prop where
  | null : Fits null
  | boolean (value : Bool) : Fits (boolean value)
  | numberInteger (value : Int64) : Fits (numberInteger value)
  | numberUnsigned (value : UInt64) : Fits (numberUnsigned value)
  | string {value : Bytes} : value.length < 2 ^ 32 → Fits (string value)
  | array {elements : List Json} : elements.length < 2 ^ 32 →
      (∀ element ∈ elements, Fits element) → Fits (array elements)
  | object {members : List (Bytes × Json)} : members.length < 2 ^ 32 →
      members.Pairwise (fun a b => a.1 < b.1) → (∀ member ∈ members, member.1.length < 2 ^ 32) →
      (∀ member ∈ members, Fits member.2) → Fits (object members)

theorem writeElements_eq (elements : List Json) :
    writeElements elements = elements.flatMap writeMsgpack := by
  induction elements with
  | nil => rfl
  | cons element rest ih => rw [writeElements, ih, List.flatMap_cons]

theorem writeMembers_eq (members : List (Bytes × Json)) : writeMembers members =
    members.flatMap fun member => writeString member.1 ++ writeMsgpack member.2 := by
  induction members with
  | nil => rfl
  | cons member rest ih => rw [writeMembers, ih, List.flatMap_cons]

theorem rereadElements_eq (elements : List Json) :
    rereadElements elements = elements.map reread := by
  induction elements with
  | nil => rfl
  | cons element rest ih => rw [rereadElements, ih, List.map_cons]

theorem rereadMembers_eq (members : List (Bytes × Json)) :
    rereadMembers members = members.map fun member => (member.1, reread member.2) := by
  induction members with
  | nil => rfl
  | cons member rest ih => rw [rereadMembers, ih, List.map_cons]

/-! ### Numbers -/

theorem unsigned_field {width : Nat} {n : UInt64} (small : n.toNat < 256 ^ width) :
    UInt64.ofNat (n.toNat % 256 ^ width) = n := by
  rw [Nat.mod_eq_of_lt small, UInt64.ofNat_toNat]

theorem toInt_bits (n : Int64) : n.toInt = Int.bmod n.toUInt64.toNat (2 ^ 64) :=
  BitVec.toInt_eq_toNat_bmod _

theorem signed_field (width : Nat) {n : Int64} (narrow : 256 ^ width ∣ 2 ^ 64)
    (low : -(256 ^ width : Nat) ≤ n.toInt * 2) (high : n.toInt * 2 < (256 ^ width : Nat)) :
    signed width (n.toUInt64.toNat % 256 ^ width) = n := by
  have same : Int.bmod n.toInt (256 ^ width) = Int.bmod n.toUInt64.toNat (256 ^ width) := by
    rw [toInt_bits, Int.bmod_bmod_of_dvd narrow]
  rw [signed, Int.natCast_emod, Int.emod_bmod, ← same, Int.bmod_eq_of_le_mul_two low high,
    Int64.ofInt_toInt]

def Read (nested : Scanner UInt8 Json) (bytes : Bytes) (json : Json) : Prop :=
  ∃ control body, bytes = control :: body ∧ Takes (parseControl nested control) body json

section
variable {nested : Scanner UInt8 Json}

theorem read_unsigned {control : UInt8} {width : Nat} {n : UInt64} (small : n.toNat < 256 ^ width)
    (switch : parseControl nested control =
      (fun n => numberUnsigned (UInt64.ofNat n)) <$> number width) :
    Read nested (control :: writeNumber width n.toNat) (numberUnsigned n) := by
  have field := (Scanner.takes_number width n.toNat).map fun n => numberUnsigned (UInt64.ofNat n)
  rw [unsigned_field small, ← switch] at field
  exact ⟨control, _, rfl, field⟩

theorem read_signed {control : UInt8} {width : Nat} {n : Int64} (narrow : 256 ^ width ∣ 2 ^ 64)
    (low : -(256 ^ width : Nat) ≤ n.toInt * 2) (high : n.toInt * 2 < (256 ^ width : Nat))
    (switch : parseControl nested control =
      (fun n => numberInteger (signed width n)) <$> number width) :
    Read nested (control :: writeNumber width n.toUInt64.toNat) (numberInteger n) := by
  have field := (Scanner.takes_number width n.toUInt64.toNat).map fun n =>
    numberInteger (signed width n)
  rw [signed_field width narrow low high, ← switch] at field
  exact ⟨control, _, rfl, field⟩

theorem read_writeUnsigned (n : UInt64) :
    Read nested (writeUnsigned n) (numberUnsigned n) := by
  unfold writeUnsigned
  split
  · rename_i fixed
    have control : UInt8.ofNat n.toNat ≤ 0x7F := by
      rw [UInt8.le_iff_toNat_le, UInt8.toNat_ofNat']
      exact Nat.le_trans (Nat.mod_le _ _) (Nat.le_of_lt_succ fixed)
    have same : (UInt8.ofNat n.toNat).toUInt64 = n := by
      rw [← UInt64.toNat_inj, UInt8.toNat_toUInt64, UInt8.toNat_ofNat']
      exact Nat.mod_eq_of_lt (Nat.lt_trans fixed (by decide))
    refine ⟨UInt8.ofNat n.toNat, [], rfl, ?_⟩
    rw [parseControl, if_pos control, same]
    exact .pure _
  · split
    · rename_i small
      exact read_unsigned (Nat.lt_succ_of_le small) rfl
    · split
      · rename_i small
        exact read_unsigned (Nat.lt_succ_of_le small) rfl
      · split
        · rename_i small
          exact read_unsigned (Nat.lt_succ_of_le small) rfl
        · exact read_unsigned n.toNat_lt rfl

theorem read_fixed {n : Int64} (negative : n.toInt < 0) (small : -32 ≤ n.toInt) :
    Read nested (writeNumber 1 n.toUInt64.toNat) (numberInteger n) := by
  have byte : n.toUInt64.toNat % 256 = (n.toInt + 256).toNat := by
    have bits := toInt_bits n
    have bound := n.toUInt64.toNat_lt
    rw [Int.bmod_def] at bits
    split at bits <;> omega
  have high : 0xE0 ≤ UInt8.ofNat n.toUInt64.toNat := by
    rw [UInt8.le_iff_toNat_le, UInt8.toNat_ofNat', byte]
    change 224 ≤ _
    omega
  have above : ∀ limit < (0xE0 : UInt8), ¬ UInt8.ofNat n.toUInt64.toNat ≤ limit :=
    fun limit below => UInt8.not_le.mpr (Std.lt_of_lt_of_le below high)
  have value : signed 1 (UInt8.ofNat n.toUInt64.toNat).toNat = n :=
    signed_field 1 (by decide) (by omega) (by omega)
  refine ⟨UInt8.ofNat n.toUInt64.toNat, [], rfl, ?_⟩
  rw [parseControl, if_neg (above _ (by decide)), if_neg (above _ (by decide)),
    if_neg (above _ (by decide)), if_neg (above _ (by decide)), if_pos high, value]
  exact .pure _

theorem read_writeInteger (n : Int64) :
    Read nested (writeInteger n) (reread (numberInteger n)) := by
  unfold writeInteger reread
  split
  · exact read_writeUnsigned n.toUInt64
  · rename_i negative
    have negative := Int.not_le.mp negative
    split
    · rename_i small
      exact read_fixed negative small
    · split
      · rename_i range
        exact read_signed (by decide) (by omega) (by omega) rfl
      · split
        · rename_i range
          exact read_signed (by decide) (by omega) (by omega) rfl
        · split
          · rename_i range
            exact read_signed (by decide) (by omega) (by omega) rfl
          · have low := n.le_toInt
            have high := n.toInt_lt
            exact read_signed (by decide) (by omega) (by omega) rfl

/-! ### Strings and containers -/

theorem fixed_string : ∀ N < 32, 0xA0 ≤ UInt8.ofNat (0xA0 ||| N) ∧
    UInt8.ofNat (0xA0 ||| N) ≤ 0xBF ∧ (UInt8.ofNat (0xA0 ||| N) &&& 0x1F).toNat = N := by
  decide

theorem takes_writeString {s : Bytes} (short : s.length < 2 ^ 32) : ∃ control body,
    writeString s = control :: body ∧ Takes (getMsgpackString control) body s ∧
      ∀ nested, parseControl nested control = string <$> getMsgpackString control := by
  have counted : ∀ width, s.length < 256 ^ width →
      Takes (number width >>= symbols) (writeNumber width s.length ++ s) s := by
    intro width small
    have length := Scanner.takes_number width s.length
    rw [Nat.mod_eq_of_lt small] at length
    exact length.bind (Scanner.takes_symbols s)
  simp only [writeString]
  split
  · rename_i fixed
    obtain ⟨low, high, length⟩ := fixed_string s.length (Nat.lt_succ_of_le fixed)
    have above : ∀ limit < (0xA0 : UInt8), ¬ UInt8.ofNat (0xA0 ||| s.length) ≤ limit :=
      fun limit below => UInt8.not_le.mpr (Std.lt_of_lt_of_le below low)
    refine ⟨UInt8.ofNat (0xA0 ||| s.length), s, rfl, ?_, ?_⟩
    · rw [getMsgpackString, if_pos ⟨low, high⟩, length]
      exact Scanner.takes_symbols s
    · intro nested
      rw [parseControl, if_neg (above _ (by decide)), if_neg (above _ (by decide)),
        if_neg (above _ (by decide)), if_pos high]
  · split
    · rename_i small
      exact ⟨0xD9, _, rfl, counted 1 (Nat.lt_succ_of_le small), fun _ => rfl⟩
    · split
      · rename_i small
        exact ⟨0xDA, _, rfl, counted 2 (Nat.lt_succ_of_le small), fun _ => rfl⟩
      · rw [if_pos (Nat.le_of_lt_succ short)]
        exact ⟨0xDB, _, rfl, counted 4 short, fun _ => rfl⟩

theorem read_writeString {s : Bytes} (short : s.length < 2 ^ 32) :
    Read nested (writeString s) (string s) := by
  obtain ⟨control, body, bytes, takes, switch⟩ := takes_writeString short
  have value := takes.map string
  rw [← switch nested] at value
  exact ⟨control, body, bytes, value⟩

theorem read_writeSize {fixed sized16 sized32 : UInt8} (container : Nat → Scanner UInt8 Json)
    (small : ∀ N < 16, parseControl nested (fixed ||| UInt8.ofNat N) = container N)
    (switch16 : parseControl nested sized16 = number 2 >>= container)
    (switch32 : parseControl nested sized32 = number 4 >>= container) {N : Nat}
    (short : N < 2 ^ 32) {behind : Bytes} {json : Json} (takes : Takes (container N) behind json) :
    Read nested (writeSize fixed sized16 sized32 N ++ behind) json := by
  have counted : ∀ width, N < 256 ^ width →
      Takes (number width >>= container) (writeNumber width N ++ behind) json := by
    intro width fits
    have length := Scanner.takes_number width N
    rw [Nat.mod_eq_of_lt fits] at length
    exact length.bind takes
  unfold writeSize
  split
  · rename_i few
    refine ⟨fixed ||| UInt8.ofNat N, behind, rfl, ?_⟩
    rw [small N (Nat.lt_succ_of_le few)]
    exact takes
  · split
    · rename_i fits
      exact ⟨sized16, _, rfl, switch16 ▸ counted 2 (Nat.lt_succ_of_le fits)⟩
    · rw [if_pos (Nat.le_of_lt_succ short)]
      exact ⟨sized32, _, rfl, switch32 ▸ counted 4 short⟩

theorem fixed_array : ∀ N < 16, 0x90 ≤ 0x90 ||| UInt8.ofNat N ∧
    0x90 ||| UInt8.ofNat N ≤ 0x9F ∧ ((0x90 ||| UInt8.ofNat N) &&& 0x0F).toNat = N := by
  decide

theorem fixed_object : ∀ N < 16, 0x80 ≤ 0x80 ||| UInt8.ofNat N ∧
    0x80 ||| UInt8.ofNat N ≤ 0x8F ∧ ((0x80 ||| UInt8.ofNat N) &&& 0x0F).toNat = N := by
  decide

theorem read_array {elements : List Json} (short : elements.length < 2 ^ 32)
    (each : ∀ element ∈ elements, Takes nested (writeMsgpack element) element.reread) :
    Read nested (writeMsgpack (array elements)) (reread (array elements)) := by
  have loop := Takes.times (fun read => do
      let element ← nested
      pure (read ++ [element])) writeMsgpack (fun read element => read ++ [element.reread]) elements
    (fun element member read => (each element member).map fun value => read ++ [value]) []
  rw [List.foldl_append_eq_append, ← List.flatMap_def, List.nil_append, ← List.map_eq_flatMap,
    ← rereadElements_eq, ← writeElements_eq] at loop
  rw [writeMsgpack, reread]
  apply read_writeSize (getMsgpackArray nested) ?_ rfl rfl short (loop.map array)
  intro N few
  obtain ⟨low, high, length⟩ := fixed_array N few
  have above : ∀ limit < (0x90 : UInt8), ¬ 0x90 ||| UInt8.ofNat N ≤ limit :=
    fun limit below => UInt8.not_le.mpr (Std.lt_of_lt_of_le below low)
  rw [parseControl, if_neg (above _ (by decide)), if_neg (above _ (by decide)), if_pos high,
    length]

theorem takes_member {key : Bytes} {value : Json} (short : key.length < 2 ^ 32)
    (takes : Takes nested (writeMsgpack value) value.reread) (members : List (Bytes × Json)) :
    Takes (do
      let current ← next
      let key ← getMsgpackString current
      let value ← nested
      pure (OrderedMap.insertEntry key value members)) (writeString key ++ writeMsgpack value)
      (OrderedMap.insertEntry key value.reread members) := by
  obtain ⟨control, body, bytes, string, _⟩ := takes_writeString short
  rw [bytes, List.cons_append]
  exact .cons (string.bind (takes.map fun value => OrderedMap.insertEntry key value members))

theorem read_object {members : List (Bytes × Json)} (few : members.length < 2 ^ 32)
    (sorted : members.Pairwise fun a b => a.1 < b.1)
    (short : ∀ member ∈ members, member.1.length < 2 ^ 32)
    (each : ∀ member ∈ members, Takes nested (writeMsgpack member.2) member.2.reread) :
    Read nested (writeMsgpack (object members)) (reread (object members)) := by
  have loop := Takes.times _ _ (fun read member =>
      OrderedMap.insertEntry member.1 member.2.reread read) members
    (fun member here read => takes_member (short member here) (each member here) read) []
  have kept : ([] ++ rereadMembers members).Pairwise fun a b : Bytes × Json => a.1 < b.1 := by
    rw [rereadMembers_eq, List.nil_append, List.pairwise_map]
    exact sorted
  have map := OrderedMap.foldl_insertEntry kept
  rw [rereadMembers_eq, List.foldl_map] at map
  rw [← writeMembers_eq, map, List.nil_append, ← rereadMembers_eq] at loop
  rw [writeMsgpack, reread]
  apply read_writeSize (getMsgpackObject nested) ?_ rfl rfl few (loop.map object)
  intro N few
  obtain ⟨low, high, length⟩ := fixed_object N few
  have above : ∀ limit < (0x80 : UInt8), ¬ 0x80 ||| UInt8.ofNat N ≤ limit :=
    fun limit below => UInt8.not_le.mpr (Std.lt_of_lt_of_le below low)
  rw [parseControl, if_neg (above _ (by decide)), if_pos high, length]

end

/-! ### The round trip -/

theorem takes_of_read {bytes : Bytes} {json : Json}
    (read : ∀ depth, bytes.length ≤ depth + 1 → Read (parseMsgpackInternal depth) bytes json)
    {depth : Nat} (enough : bytes.length ≤ depth) :
    Takes (parseMsgpackInternal depth) bytes json := by
  cases depth with
  | zero =>
    obtain ⟨control, body, nonempty, _⟩ := read 0 (Nat.le_succ_of_le enough)
    rw [nonempty, List.length_cons] at enough
    exact absurd enough (Nat.not_succ_le_zero _)
  | succ depth =>
    obtain ⟨control, body, same, takes⟩ := read depth enough
    rw [same, parseMsgpackInternal]
    exact .cons takes

theorem length_encode_le {Item : Type} (encode : Item → Bytes) {items : List Item} {item : Item}
    (member : item ∈ items) : (encode item).length ≤ (items.flatMap encode).length :=
  (List.sublist_flatten_of_mem (List.mem_map_of_mem member)).length_le

theorem writeSize_pos (fixed sized16 sized32 : UInt8) {N : Nat} (short : N < 2 ^ 32) :
    0 < (writeSize fixed sized16 sized32 N).length := by
  unfold writeSize
  split
  · exact Nat.one_pos
  · split
    · exact Nat.succ_pos _
    · rw [if_pos (Nat.le_of_lt_succ short)]
      exact Nat.succ_pos _

/-- The reader takes what the writer wrote, whatever comes behind it. -/
theorem Fits.read {json : Json} (fits : json.Fits) : ∀ depth,
    (writeMsgpack json).length ≤ depth + 1 →
      Read (parseMsgpackInternal depth) (writeMsgpack json) json.reread := by
  induction fits with
  | null => exact fun _ _ => ⟨0xC0, [], rfl, .pure _⟩
  | boolean value =>
    cases value with
    | false => exact fun _ _ => ⟨0xC2, [], rfl, .pure _⟩
    | true => exact fun _ _ => ⟨0xC3, [], rfl, .pure _⟩
  | numberInteger value => exact fun _ _ => read_writeInteger value
  | numberUnsigned value => exact fun _ _ => read_writeUnsigned value
  | string short => exact fun _ _ => read_writeString short
  | @array elements short _ ih =>
    intro depth enough
    apply read_array short
    intro element member
    apply takes_of_read (ih element member)
    have inside := length_encode_le writeMsgpack member
    have first := writeSize_pos 0x90 0xDC 0xDD short
    rw [writeMsgpack, writeElements_eq, List.length_append] at enough
    omega
  | @object members few sorted short _ ih =>
    intro depth enough
    apply read_object few sorted short
    intro member here
    apply takes_of_read (ih member here)
    have inside := length_encode_le
      (fun member => writeString member.1 ++ writeMsgpack member.2) here
    have first := writeSize_pos 0x80 0xDE 0xDF few
    rw [writeMsgpack, writeMembers_eq, List.length_append] at enough
    rw [List.length_append] at inside
    omega

theorem Fits.takes {json : Json} (fits : json.Fits) {depth : Nat}
    (enough : (writeMsgpack json).length ≤ depth) :
    Takes (parseMsgpackInternal depth) (writeMsgpack json) json.reread :=
  takes_of_read fits.read enough

/-! ### Values that have broken off -/

section
open Scanner (Extends)

variable {bound : Nat}

theorem extends_string (current : UInt8) :
    Extends bound (getMsgpackString current) (getMsgpackString current) := by
  unfold getMsgpackString
  repeat' split
  · exact Scanner.extends_symbols _
  · exact (Scanner.extends_number 1).bind Scanner.extends_symbols
  · exact (Scanner.extends_number 2).bind Scanner.extends_symbols
  · exact (Scanner.extends_number 4).bind Scanner.extends_symbols
  · exact .fail _

variable {nested other : Scanner UInt8 Json}

theorem extends_array (deeper : Extends bound nested other) (len : Nat) :
    Extends bound (getMsgpackArray nested len) (getMsgpackArray other len) := by
  apply Extends.map
  apply Extends.times
  exact fun _ => deeper.bind fun _ => .pure _

theorem extends_object (deeper : Extends bound nested other) (len : Nat) :
    Extends bound (getMsgpackObject nested len) (getMsgpackObject other len) := by
  apply Extends.map
  apply Extends.times
  intro members
  apply Extends.next.bind
  intro current
  apply (extends_string current).bind
  exact fun _ => deeper.bind fun _ => .pure _

theorem extends_control (deeper : Extends bound nested other) (current : UInt8) :
    Extends bound (parseControl nested current) (parseControl other current) := by
  have scalar : ∀ {α : Type} (width : Nat) (f : Nat → α),
      Extends bound (f <$> number width) (f <$> number width) :=
    fun width f => (Scanner.extends_number width).map f
  unfold parseControl
  split
  · exact .pure _
  split
  · exact extends_object deeper _
  split
  · exact extends_array deeper _
  split
  · exact (extends_string current).map string
  split
  · exact .pure _
  split
  · exact .pure _
  · exact .pure _
  · exact .pure _
  · exact scalar 1 _
  · exact scalar 2 _
  · exact scalar 4 _
  · exact scalar 8 _
  · exact scalar 1 _
  · exact scalar 2 _
  · exact scalar 4 _
  · exact scalar 8 _
  · exact (extends_string current).map string
  · exact (extends_string current).map string
  · exact (extends_string current).map string
  · exact (Scanner.extends_number 2).bind (extends_array deeper)
  · exact (Scanner.extends_number 4).bind (extends_array deeper)
  · exact (Scanner.extends_number 2).bind (extends_object deeper)
  · exact (Scanner.extends_number 4).bind (extends_object deeper)
  · exact .fail _

theorem extends_parse (depth : Nat) {deep : Nat} (enough : bound ≤ deep) :
    Extends bound (parseMsgpackInternal depth) (parseMsgpackInternal deep) := by
  induction bound generalizing depth deep with
  | zero =>
    intro stream value rest more short found
    have empty := List.length_eq_zero_iff.mp (Nat.le_zero.mp short)
    subst empty
    cases depth with
    | zero => cases found
    | succ depth => cases found
  | succ bound ih =>
    cases depth with
    | zero => exact .fail _
    | succ depth =>
      obtain ⟨deep, rfl⟩ := Nat.exists_eq_add_of_le' (Nat.le_trans (Nat.succ_pos bound) enough)
      exact .cons fun current =>
        extends_control (ih depth (Nat.le_of_succ_le_succ enough)) current

/-- The depth in `fromMsgpack` is enough: no other one reads more. -/
theorem fromMsgpack_deep {bytes : Bytes} {json : Json} {depth : Nat}
    (read : (parseMsgpackInternal depth).strict bytes = some json) :
    fromMsgpack bytes = some json :=
  (extends_parse depth (Nat.le_refl bytes.length)).strict read

/-- The reader gives back every value that the writer wrote, and refuses its bytes when some of
them are missing. -/
theorem reads_back {json : Json} (fits : json.Fits) :
    fromMsgpack (writeMsgpack json) = some json.reread ∧
      ∀ cut < (writeMsgpack json).length, fromMsgpack ((writeMsgpack json).take cut) = none := by
  constructor
  · exact (fits.takes (Nat.le_refl _)).strict
  · intro cut broken
    have length : ((writeMsgpack json).take cut).length = cut :=
      List.length_take_of_le (Nat.le_of_lt broken)
    rw [fromMsgpack, length]
    exact (extends_parse cut (Nat.le_of_lt broken)).cut (fits.takes (Nat.le_refl _)) broken

theorem reads_back_nested :
    fromMsgpack (writeMsgpack (array [numberInteger (-300), object [([107], boolean true)]])) =
        some (reread (array [numberInteger (-300), object [([107], boolean true)]])) ∧
      ∀ cut < (writeMsgpack (array [numberInteger (-300), object [([107], boolean true)]])).length,
        fromMsgpack ((writeMsgpack
          (array [numberInteger (-300), object [([107], boolean true)]])).take cut) = none := by
  apply reads_back
  have inner : (object [([107], boolean true)]).Fits := by
    apply Fits.object
    · exact Nat.one_lt_two_pow (by decide)
    · exact List.pairwise_singleton _ _
    · exact List.forall_mem_singleton.mpr (show 1 < 2 ^ 32 by decide)
    · exact List.forall_mem_singleton.mpr (.boolean true)
  apply Fits.array
  · exact show 2 < 2 ^ 32 by decide
  · exact List.forall_mem_cons.mpr ⟨.numberInteger _, List.forall_mem_singleton.mpr inner⟩

end

end Json

end ComIpc.Tools
