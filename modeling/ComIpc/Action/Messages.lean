import ComIpc.Semantics.LittleEndian
import ComIpc.Types

/-! The packed messages of an action and how the loops read them.

A message is the fixed part of its header followed by `sizeof(T)` bytes of payload.
A reader copies it over a local header, whose previous content is an argument: bytes
that were not received keep whatever was there.
-/

set_option autoImplicit false

namespace ComIpc.Action

open Semantics

/-- `ActionGoalHeader`; `data` may be given in part. -/
structure GoalHeader where
  goalId : Int32
  timestamp : Int64
  dataSize : UInt32
  data : Bytes
  deriving DecidableEq, Repr

/-- `ActionFeedbackHeader` and `ActionResultHeader`, which have the same fields. -/
structure ReportHeader where
  goalId : Int32
  status : Int32
  timestamp : Int64
  dataSize : UInt32
  data : Bytes
  deriving DecidableEq, Repr

namespace GoalHeader

abbrev fixedSize : Nat := 16

def image (header : GoalHeader) : Bytes :=
  int32Bytes header.goalId ++ (int64Bytes header.timestamp ++
    (uint32Bytes header.dataSize ++ header.data))

def ofImage (image : Bytes) : GoalHeader where
  goalId := int32Of image
  timestamp := int64Of (image.drop 4)
  dataSize := uint32Of (image.drop 12)
  data := image.drop fixedSize

def ofGoal (goalId : Int32) (timestamp : Int64) (goal : Payload) : GoalHeader :=
  ⟨goalId, timestamp, UInt32.ofNat goal.bytes.length, goal.bytes⟩

end GoalHeader

namespace ReportHeader

abbrev fixedSize : Nat := 20

def image (header : ReportHeader) : Bytes :=
  int32Bytes header.goalId ++ (int32Bytes header.status ++ (int64Bytes header.timestamp ++
    (uint32Bytes header.dataSize ++ header.data)))

def ofImage (image : Bytes) : ReportHeader where
  goalId := int32Of image
  status := int32Of (image.drop 4)
  timestamp := int64Of (image.drop 8)
  dataSize := uint32Of (image.drop 16)
  data := image.drop fixedSize

def ofReport (goalId status : Int32) (timestamp : Int64) (report : Payload) : ReportHeader :=
  ⟨goalId, status, timestamp, UInt32.ofNat report.bytes.length, report.bytes⟩

end ReportHeader

/-- `processLoop` on a message of its goal topic: the received bytes are copied over a local
header and as many bytes of its `data` as the header says are taken. Reading past the
array has no defined result. -/
def readGoal (residue message : Bytes) : Option (Int32 × Bytes) :=
  let goal := GoalHeader.ofImage (memcpy residue message message.length)
  if goal.dataSize.toNat ≤ maxMsgSize then
    some (goal.goalId, goal.data.take goal.dataSize.toNat)
  else none

-- The later test of the loops, that the rest is at most `MAX_MSG_SIZE` bytes, never fails:
-- the receive buffer holds no longer message.

/-- `feedbackLoop` and `resultLoop` on a message: the fixed part and the rest are copied over
a local header one after the other. -/
def readReport (residue message : Bytes) : ReportHeader :=
  let header := ReportHeader.ofImage message
  { header with data := memcpy residue header.data header.data.length }

theorem GoalHeader.ofImage_image (header : GoalHeader) (rest : Bytes) :
    ofImage (header.image ++ rest) = { header with data := header.data ++ rest } := by
  obtain ⟨goalId, timestamp, dataSize, data⟩ := header
  simp only [image, ofImage, List.append_assoc]
  have afterId : ∀ rest : Bytes, (int32Bytes goalId ++ rest).drop 4 = rest := fun rest =>
    drop_image rest
  have afterTime : ∀ rest : Bytes,
      (int32Bytes goalId ++ (int64Bytes timestamp ++ rest)).drop 12 = rest := by
    intro rest
    rw [show 12 = 4 + 8 from rfl, ← List.drop_drop, afterId]
    exact drop_image rest
  have afterSize : ∀ rest : Bytes,
      (int32Bytes goalId ++ (int64Bytes timestamp ++ (uint32Bytes dataSize ++ rest))).drop 16 =
        rest := by
    intro rest
    rw [show 16 = 12 + 4 from rfl, ← List.drop_drop, afterTime]
    exact drop_image rest
  rw [int32Of_image, afterId, int64Of_image, afterTime, uint32Of_image, afterSize]

theorem ReportHeader.ofImage_image (header : ReportHeader) :
    ofImage header.image = header := by
  obtain ⟨goalId, status, timestamp, dataSize, data⟩ := header
  simp only [image, ofImage]
  have afterId : ∀ rest : Bytes, (int32Bytes goalId ++ rest).drop 4 = rest := fun rest =>
    drop_image rest
  have afterStatus : ∀ rest : Bytes,
      (int32Bytes goalId ++ (int32Bytes status ++ rest)).drop 8 = rest := by
    intro rest
    rw [show 8 = 4 + 4 from rfl, ← List.drop_drop, afterId]
    exact drop_image rest
  have afterTime : ∀ rest : Bytes,
      (int32Bytes goalId ++ (int32Bytes status ++ (int64Bytes timestamp ++ rest))).drop 16 =
        rest := by
    intro rest
    rw [show 16 = 8 + 8 from rfl, ← List.drop_drop, afterStatus]
    exact drop_image rest
  have afterSize : ∀ rest : Bytes,
      (int32Bytes goalId ++ (int32Bytes status ++ (int64Bytes timestamp ++
        (uint32Bytes dataSize ++ rest)))).drop 20 = rest := by
    intro rest
    rw [show 20 = 16 + 4 from rfl, ← List.drop_drop, afterTime]
    exact drop_image rest
  rw [int32Of_image, afterId, int32Of_image, afterStatus, int64Of_image, afterTime,
    uint32Of_image, afterSize]

theorem GoalHeader.image_ofImage {image : Bytes} (enough : fixedSize ≤ image.length) :
    (ofImage image).image = image := by
  have long : 16 ≤ image.length := enough
  simp only [GoalHeader.image, ofImage]
  rw [int32Bytes_of (by omega), int64Bytes_of (by rw [List.length_drop]; omega),
    uint32Bytes_of (by rw [List.length_drop]; omega)]
  have afterSize := List.take_append_drop 4 (image.drop 12)
  have afterTime := List.take_append_drop 8 (image.drop 4)
  rw [List.drop_drop] at afterSize afterTime
  rw [afterSize, afterTime, List.take_append_drop]

theorem ReportHeader.image_ofImage {image : Bytes} (enough : fixedSize ≤ image.length) :
    (ofImage image).image = image := by
  have long : 20 ≤ image.length := enough
  simp only [ReportHeader.image, ofImage]
  rw [int32Bytes_of (by omega), int32Bytes_of (by rw [List.length_drop]; omega),
    int64Bytes_of (by rw [List.length_drop]; omega),
    uint32Bytes_of (by rw [List.length_drop]; omega)]
  have afterSize := List.take_append_drop 4 (image.drop 16)
  have afterTime := List.take_append_drop 8 (image.drop 8)
  have afterStatus := List.take_append_drop 4 (image.drop 4)
  rw [List.drop_drop] at afterSize afterTime afterStatus
  rw [afterSize, afterTime, afterStatus, List.take_append_drop]

theorem toNat_payload (payload : Payload) :
    (UInt32.ofNat payload.bytes.length).toNat = payload.bytes.length := by
  have small : payload.bytes.length < 2 ^ 32 := Nat.lt_of_le_of_lt payload.fits (by decide)
  rw [UInt32.toNat_ofNat', Nat.mod_eq_of_lt small]

@[simp] theorem GoalHeader.length_image (header : GoalHeader) :
    header.image.length = fixedSize + header.data.length := by
  simp [image, fixedSize]
  omega

@[simp] theorem ReportHeader.length_image (header : ReportHeader) :
    header.image.length = fixedSize + header.data.length := by
  simp [image, fixedSize]
  omega

theorem readGoal_image (residue : Bytes) (goalId : Int32) (timestamp : Int64) (goal : Payload) :
    readGoal residue (GoalHeader.ofGoal goalId timestamp goal).image =
      some (goalId, goal.bytes) := by
  have whole : memcpy residue (GoalHeader.ofGoal goalId timestamp goal).image
      (GoalHeader.ofGoal goalId timestamp goal).image.length =
      (GoalHeader.ofGoal goalId timestamp goal).image ++
        residue.drop (GoalHeader.ofGoal goalId timestamp goal).image.length := by
    rw [memcpy, List.take_length]
  simp only [readGoal, whole, GoalHeader.ofImage_image]
  have size : (GoalHeader.ofGoal goalId timestamp goal).dataSize.toNat = goal.bytes.length :=
    toNat_payload goal
  rw [size, if_pos goal.fits]
  simp only [GoalHeader.ofGoal, List.take_left']

theorem readReport_image (residue : Bytes) (goalId status : Int32) (timestamp : Int64)
    (report : Payload) :
    let read := readReport residue (ReportHeader.ofReport goalId status timestamp report).image
    read.goalId = goalId ∧ read.status = status ∧
      read.dataSize.toNat = report.bytes.length ∧
      read.data.take report.bytes.length = report.bytes := by
  simp only [readReport, ReportHeader.ofImage_image]
  refine ⟨rfl, rfl, toNat_payload report, ?_⟩
  simp only [ReportHeader.ofReport]
  rw [take_memcpy (Nat.le_refl _), List.take_length]

/-- The server believes the size that the message declares, as long as its array has it. -/
theorem readGoal_eq (residue : Bytes) {message : Bytes}
    (enough : GoalHeader.fixedSize ≤ message.length) :
    readGoal residue message =
      let size := (uint32Of (message.drop 12)).toNat
      if size ≤ maxMsgSize then
        some (int32Of message,
          (message.drop GoalHeader.fixedSize ++ residue.drop message.length).take size)
      else none := by
  have whole : memcpy residue message message.length =
      (GoalHeader.ofImage message).image ++ residue.drop message.length := by
    rw [memcpy, List.take_length, GoalHeader.image_ofImage enough]
  simp only [readGoal, whole, GoalHeader.ofImage_image]
  rfl

theorem ofNat_length {payload : Payload} {n : UInt32} (same : n.toNat = payload.bytes.length) :
    n = UInt32.ofNat payload.bytes.length := by
  rw [← same, UInt32.ofNat_toNat]

theorem readGoal_iff {residue block : Bytes} {goalId : Int32} {goal : Payload}
    (local_ : residue.length = GoalHeader.fixedSize + maxMsgSize)
    (length : block.length = GoalHeader.fixedSize + goal.bytes.length) :
    readGoal residue block = some (goalId, goal.bytes) ↔
      ∃ timestamp, block = (GoalHeader.ofGoal goalId timestamp goal).image := by
  constructor
  · intro read
    have image := GoalHeader.image_ofImage (Nat.le.intro length.symm)
    have dataLength : (GoalHeader.ofImage block).data.length = goal.bytes.length := by
      simp [GoalHeader.ofImage, length]
    generalize GoalHeader.ofImage block = header at image dataLength
    have whole : memcpy residue block block.length =
        header.image ++ residue.drop block.length := by
      rw [memcpy, List.take_length, image]
    simp only [readGoal, whole, GoalHeader.ofImage_image] at read
    split at read
    · rename_i within
      simp only [Option.some.injEq, Prod.mk.injEq] at read
      obtain ⟨number, data⟩ := read
      -- the array holds 256 bytes, so as many as the header says were taken
      have taken := congrArg List.length data
      have fits := goal.fits
      simp only [List.length_take, List.length_append, List.length_drop, dataLength] at taken
      have size : header.dataSize.toNat = goal.bytes.length := by omega
      have bytes : header.data = goal.bytes := by
        rw [← data, size, ← dataLength, List.take_left']
        rfl
      refine ⟨header.timestamp, ?_⟩
      rw [← image, GoalHeader.ofGoal, ← number, ← ofNat_length size, ← bytes]
    · contradiction
  · rintro ⟨timestamp, rfl⟩
    exact readGoal_image residue goalId timestamp goal

theorem readReport_iff {residue block : Bytes} {goalId status : Int32} {report : Payload}
    (length : block.length = ReportHeader.fixedSize + report.bytes.length) :
    ((readReport residue block).goalId = goalId ∧ (readReport residue block).status = status ∧
        (readReport residue block).dataSize.toNat = report.bytes.length ∧
        (readReport residue block).data.take report.bytes.length = report.bytes) ↔
      ∃ timestamp, block = (ReportHeader.ofReport goalId status timestamp report).image := by
  constructor
  · rintro ⟨number, state, size, data⟩
    have image := ReportHeader.image_ofImage (Nat.le.intro length.symm)
    have dataLength : (ReportHeader.ofImage block).data.length = report.bytes.length := by
      simp [ReportHeader.ofImage, length]
    simp only [readReport] at number state size data
    generalize ReportHeader.ofImage block = header at image dataLength number state size data
    rw [← dataLength, take_memcpy (Nat.le_refl _), List.take_length] at data
    refine ⟨header.timestamp, ?_⟩
    rw [← image, ReportHeader.ofReport, ← number, ← state, ← ofNat_length size, ← data]
  · rintro ⟨timestamp, rfl⟩
    exact readReport_image residue goalId status timestamp report

end ComIpc.Action
