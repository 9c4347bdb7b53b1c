import ComIpc.Semantics.LittleEndian
import ComIpc.Types

/-! The envelope in front of every UDP payload.

The structure is packed and copied into the packet as it lies in memory; sender and
receiver have the same byte order.
-/

set_option autoImplicit false

namespace ComIpc.Udp

open Semantics

structure QoSHeader where
  seqId : UInt32
  timestampUs : UInt64
  msgType : UInt8
  qosFlag : UInt8
  deriving DecidableEq, Repr

namespace QoSHeader

abbrev bytes : Nat := 14

def image (header : QoSHeader) : Bytes :=
  uint32Bytes header.seqId ++ (uint64Bytes header.timestampUs ++
    [header.msgType, header.qosFlag])

def ofImage (buffer : Bytes) : QoSHeader where
  seqId := uint32Of buffer
  timestampUs := uint64Of (buffer.drop 4)
  msgType := (buffer.drop 12).headD 0
  qosFlag := (buffer.drop 13).headD 0

@[simp] theorem length_image (header : QoSHeader) : header.image.length = bytes := by
  simp [image, bytes]

theorem ofImage_image (header : QoSHeader) (payload : Bytes) :
    ofImage (header.image ++ payload) = header := by
  obtain ⟨seqId, timestampUs, msgType, qosFlag⟩ := header
  simp only [image, ofImage, List.append_assoc]
  have afterSeq : ∀ rest : Bytes, (uint32Bytes seqId ++ rest).drop 4 = rest := fun rest =>
    drop_image rest
  have afterTime : ∀ rest : Bytes,
      (uint32Bytes seqId ++ (uint64Bytes timestampUs ++ rest)).drop 12 = rest := by
    intro rest
    rw [show 12 = 4 + 8 from rfl, ← List.drop_drop, afterSeq]
    exact drop_image rest
  have afterType : (uint32Bytes seqId ++ (uint64Bytes timestampUs ++
      ([msgType, qosFlag] ++ payload))).drop 13 = qosFlag :: payload := by
    rw [show 13 = 12 + 1 from rfl, ← List.drop_drop, afterTime]
    rfl
  rw [uint32Of_image, afterSeq, uint64Of_image, afterTime, afterType]
  rfl

end QoSHeader

def packet (header : QoSHeader) (payload : Bytes) : Bytes := header.image ++ payload

@[simp] theorem ofImage_packet (header : QoSHeader) (payload : Bytes) :
    QoSHeader.ofImage (packet header payload) = header := QoSHeader.ofImage_image header payload

@[simp] theorem drop_packet (header : QoSHeader) (payload : Bytes) :
    (packet header payload).drop QoSHeader.bytes = payload := by
  rw [packet, List.drop_append, List.drop_of_length_le (by simp), QoSHeader.length_image,
    Nat.sub_self, List.nil_append, List.drop_zero]

@[simp] theorem length_packet (header : QoSHeader) (payload : Bytes) :
    (packet header payload).length = QoSHeader.bytes + payload.length := by
  simp [packet]

end ComIpc.Udp
