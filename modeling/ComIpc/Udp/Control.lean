import ComIpc.Semantics.Picking
import ComIpc.Udp.InOrder

/-! The command stream of `qos_sender.py` and `qos_receiver.py`.

The sender numbers its commands, loses some of them on purpose and repeats old numbers on
purpose; the receiver refuses what is not newer than the last command it carried out, and
reports the gaps. Below are a publisher, a network that does what it likes, and a subscriber.
-/

set_option autoImplicit false

namespace ComIpc.Udp

open Semantics

/-- The fields of `=IQffi`. The receiver does not calculate with the two floats, so they are
given by their bits. -/
structure Command where
  seqId : UInt32
  timestamp : UInt64
  speed : UInt32
  steering : UInt32
  gear : Int32
  deriving DecidableEq, Repr

namespace Command

abbrev expectedSize : Nat := 24

def pack (c : Command) : Bytes :=
  uint32Bytes c.seqId ++ (uint64Bytes c.timestamp ++ (uint32Bytes c.speed ++
    (uint32Bytes c.steering ++ int32Bytes c.gear)))

def unpack (data : Bytes) : Command where
  seqId := uint32Of data
  timestamp := uint64Of (data.drop 4)
  speed := uint32Of (data.drop 12)
  steering := uint32Of (data.drop 16)
  gear := int32Of (data.drop 20)

@[simp] theorem length_pack (c : Command) : c.pack.length = expectedSize := by
  simp [pack, expectedSize]

theorem drop_field {field : Bytes} {width : Nat} (length : field.length = width) (rest : Bytes)
    (more : Nat) : (field ++ rest).drop (width + more) = rest.drop more := by
  rw [← length, List.drop_append]
  simp

@[simp] theorem unpack_pack (c : Command) : unpack c.pack = c := by
  obtain ⟨seqId, timestamp, speed, steering, gear⟩ := c
  have last := int32Of_image gear []
  rw [List.append_nil] at last
  simp only [unpack, pack, uint32Of_image]
  rw [drop_field (length_uint32Bytes seqId) _ 0, show 12 = 4 + (8 + 0) from rfl,
    show 16 = 4 + (8 + (4 + 0)) from rfl, show 20 = 4 + (8 + (4 + (4 + 0))) from rfl]
  simp only [drop_field (length_uint32Bytes _), drop_field (length_uint64Bytes _), List.drop_zero,
    uint64Of_image, uint32Of_image, last]

end Command

/-- What the sender reads and draws in one round of its loop. -/
structure Round where
  timestamp : UInt64
  speed : UInt32
  stale : Bool
  lost : Bool
  deriving DecidableEq, Repr

structure Sending where
  regular : Bool
  command : Command
  deriving DecidableEq, Repr

def Sending.seq (x : Sending) : Nat := x.command.seqId.toNat

def Sending.payload (x : Sending) : Bytes := x.command.pack

def Round.command (r : Round) (seqId : Nat) : Command :=
  ⟨UInt32.ofNat seqId, r.timestamp, r.speed, 0, 1⟩

def Round.sends (r : Round) (seqId : Nat) : List Sending :=
  (if r.stale = true ∧ 2 < seqId then [⟨false, r.command (seqId - 2)⟩] else []) ++
    if r.lost = true then [] else [⟨true, r.command seqId⟩]

inductive Notice where
  | intercepted (seqId lastSeqId : Nat)
  | lost (count first last : Nat)
  | executed (command : Command)
  deriving DecidableEq, Repr

/-- The report of a gap behind the last number; before the first command there is none. -/
def gap (lastSeqId seqId : Nat) : List Notice :=
  if lastSeqId ≠ 0 ∧ lastSeqId + 1 < seqId then
    [.lost (seqId - lastSeqId - 1) (lastSeqId + 1) (seqId - 1)]
  else []

def Notice.command : Notice → Option Command
  | executed c => some c
  | intercepted _ _ | lost _ _ _ => none

def Notice.missing : Notice → Nat
  | lost count _ _ => count
  | intercepted _ _ | executed _ => 0

def executed (notices : List Notice) : List Nat :=
  notices.filterMap fun n => n.command.map fun c => c.seqId.toNat

def reported (notices : List Notice) : Nat := (notices.map Notice.missing).sum

@[simp] theorem executed_append (first second : List Notice) :
    executed (first ++ second) = executed first ++ executed second := List.filterMap_append

@[simp] theorem executed_gap (last seq : Nat) : executed (gap last seq) = [] := by
  unfold gap
  split
  · rfl
  · rfl

theorem mem_gap {last seq : Nat} {n : Notice} (member : n ∈ gap last seq) :
    ∃ count first final, n = .lost count first final := by
  unfold gap at member
  split at member
  · exact ⟨_, _, _, List.mem_singleton.mp member⟩
  · exact absurd member List.not_mem_nil

structure Obeyed (last : Nat) (arrived : List Sending) (notices : List Notice) : Prop where
  /-- No command is carried out twice or after a newer one. -/
  rising : (executed notices).Pairwise (· < ·)
  newer : ∀ n ∈ executed notices, last < n
  /-- A regular command that arrives is carried out. -/
  regular : ∀ x ∈ arrived, x.regular = true → .executed x.command ∈ notices
  only : ∀ c, .executed c ∈ notices → ∃ x ∈ arrived, x.command = c
  /-- What is intercepted was sent under an old number on purpose. -/
  intercepted : ∀ n m, .intercepted n m ∈ notices →
    ∃ x ∈ arrived, x.regular = false ∧ x.seq = n

theorem Obeyed.old {last : Nat} {x : Sending} {later : List Sending} {notices : List Notice}
    (obeyed : Obeyed last later notices) (stale : x.regular = false) :
    Obeyed last (x :: later) (.intercepted x.seq last :: notices) where
  rising := obeyed.rising
  newer := obeyed.newer
  regular := by
    intro y member regular
    rcases List.mem_cons.mp member with rfl | among
    · rw [stale] at regular
      contradiction
    · exact List.mem_cons_of_mem _ (obeyed.regular y among regular)
  only := by
    intro c member
    rcases List.mem_cons.mp member with same | among
    · contradiction
    · obtain ⟨y, there, same⟩ := obeyed.only c among
      exact ⟨y, List.mem_cons_of_mem _ there, same⟩
  intercepted := by
    intro n m member
    rcases List.mem_cons.mp member with same | among
    · cases same
      exact ⟨x, List.mem_cons_self, stale, rfl⟩
    · obtain ⟨y, there, found⟩ := obeyed.intercepted n m among
      exact ⟨y, List.mem_cons_of_mem _ there, found⟩

theorem Obeyed.new {last : Nat} {x : Sending} {later : List Sending} {notices : List Notice}
    (obeyed : Obeyed x.seq later notices) (new : last < x.seq) :
    Obeyed last (x :: later) (gap last x.seq ++ .executed x.command :: notices) := by
  have numbers : executed (gap last x.seq ++ .executed x.command :: notices) =
      x.seq :: executed notices := by
    rw [executed_append, executed_gap]
    rfl
  constructor
  · rw [numbers]
    exact .cons obeyed.newer obeyed.rising
  · rw [numbers]
    intro n member
    rcases List.mem_cons.mp member with rfl | among
    · exact new
    · exact Nat.lt_trans new (obeyed.newer n among)
  · intro y member regular
    apply List.mem_append_right
    rcases List.mem_cons.mp member with rfl | among
    · exact List.mem_cons_self
    · exact List.mem_cons_of_mem _ (obeyed.regular y among regular)
  · intro c member
    rcases List.mem_append.mp member with gap | member
    · obtain ⟨_, _, _, same⟩ := mem_gap gap
      contradiction
    · rcases List.mem_cons.mp member with same | among
      · cases same
        exact ⟨x, List.mem_cons_self, rfl⟩
      · obtain ⟨y, there, same⟩ := obeyed.only c among
        exact ⟨y, List.mem_cons_of_mem _ there, same⟩
  · intro n m member
    rcases List.mem_append.mp member with gap | member
    · obtain ⟨_, _, _, same⟩ := mem_gap gap
      contradiction
    · rcases List.mem_cons.mp member with same | among
      · contradiction
      · obtain ⟨y, there, found⟩ := obeyed.intercepted n m among
        exact ⟨y, List.mem_cons_of_mem _ there, found⟩

namespace Channel

theorem InOrder.sublist {s : State Unit} (inOrder : InOrder s) (numbered : Numbered s) :
    s.returned.Sublist (s.published ()) := by
  have found : s.returned.map some =
      (s.accepted.map Accepted.number).map (Topic.nth (s.published ())) := by
    rw [inOrder.returned, List.map_map]
    rfl
  have ahead : ∀ n ∈ s.accepted.map Accepted.number, 0 < n := by
    intro n member
    obtain ⟨a, among, rfl⟩ := List.mem_map.mp member
    exact (numbered.accepted_bound among).1
  show s.returned.Sublist ((s.published ()).drop 0)
  refine picked_sublist inOrder.rising ahead (found.trans (List.map_congr_left ?_))
  exact fun n member => if_neg (Nat.ne_of_gt (ahead n member))

end Channel

end ComIpc.Udp
