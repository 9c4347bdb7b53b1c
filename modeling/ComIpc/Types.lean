import Mathlib.Logic.Function.Basic

/-! Constants, message headers and payloads shared by every component. -/

set_option autoImplicit false

namespace ComIpc

abbrev maxTopics : Nat := 20
abbrev bufferSize : Nat := 20
abbrev maxMsgSize : Nat := 256
abbrev poolSize : Nat := 100 * 1024 * 1024

abbrev Bytes := List UInt8

inductive MessageType where
  | string
  | intArray
  | floatData
  | pose
  | custom
  deriving DecidableEq, Repr

structure MessageHeader where
  type : MessageType
  seq : Int32
  timestamp : Int64
  dataSize : UInt32
  poolOffset : UInt32
  deriving DecidableEq, Repr

/-- The content of a freshly truncated shared-memory object. -/
def MessageHeader.zero : MessageHeader := ⟨.string, 0, 0, 0, 0⟩

/-- `sizeof(MessageHeader)`; the structure is packed. -/
abbrev MessageHeader.bytes : Nat := 24

/-- A payload that passes the `static_assert` on `MAX_MSG_SIZE`. -/
structure Payload where
  bytes : Bytes
  fits : bytes.length ≤ maxMsgSize
  deriving DecidableEq, Repr

def oneByte (b : UInt8) : Payload := ⟨[b], Nat.succ_le_of_lt (by decide)⟩

/-- `std::memcpy` of the first `size` bytes of `source` over `target`. -/
def memcpy (target source : Bytes) (size : Nat) : Bytes :=
  source.take size ++ target.drop size

theorem take_memcpy {target source : Bytes} {size : Nat} (enough : size ≤ source.length) :
    (memcpy target source size).take size = source.take size := by
  rw [memcpy, List.take_append_of_le_length (by simp [enough]), List.take_take, Nat.min_self]

end ComIpc
