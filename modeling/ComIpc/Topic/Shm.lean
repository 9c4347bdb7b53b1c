import ComIpc.Types
import ComIpc.SystemManager.Lock

/-! The shared-memory ring of one topic and the writes of its critical sections. -/

set_option autoImplicit false

namespace ComIpc.Topic

open Semantics SystemManager

structure TopicShm where
  mutex : RobustMutex
  writeIndex : UInt32
  seq : UInt32
  activeSubscribers : Int32
  buffer : Fin bufferSize → MessageHeader

namespace TopicShm

def init : TopicShm := ⟨.unlocked, 0, 0, 0, fun _ => .zero⟩

/-- `index % BUFFER_SIZE` on the 32-bit index. -/
def slotOf (index : UInt32) : Fin bufferSize :=
  ⟨index.toNat % bufferSize, Nat.mod_lt _ (by decide)⟩

def lockRobust (shm : TopicShm) : Option TopicShm :=
  (SystemManager.lockRobust shm.mutex).map fun taken => { shm with mutex := taken.1 }

def unlock (shm : TopicShm) : TopicShm := { shm with mutex := shm.mutex.unlock }

def ownerDies (shm : TopicShm) : TopicShm := { shm with mutex := shm.mutex.ownerDies }

def setHeader (shm : TopicShm) (slot : Fin bufferSize)
    (change : MessageHeader → MessageHeader) : TopicShm :=
  { shm with buffer := Function.update shm.buffer slot (change (shm.buffer slot)) }

/-- The header a receive reads: slot `(write_index - 1) % BUFFER_SIZE`. -/
def newest (shm : TopicShm) : MessageHeader := shm.buffer (slotOf (shm.writeIndex - 1))

end TopicShm

/-- What a publish brings into its critical section: the arguments of the call, the pool
offset of the payload and the clock. -/
structure Publication where
  type : MessageType
  size : Nat
  offset : UInt32
  now : Int64
  deriving DecidableEq, Repr

/-- The header of a publication that was given the number `seq`. The size is narrowed to
32 bits and the number goes through the signed field. -/
def Publication.header (p : Publication) (seq : UInt32) : MessageHeader :=
  ⟨p.type, seq.toInt32, p.now, UInt32.ofNat p.size, p.offset⟩

-- The counter comes first: whoever dies right after it has announced a header that is not
-- in the ring.

/-- The writes of the critical section, in program order. -/
def enqueueWrites (p : Publication) (slot : Fin bufferSize) : List (TopicShm → TopicShm) :=
  [fun shm => { shm with seq := shm.seq + 1 },
    fun shm => shm.setHeader slot fun h => { h with seq := shm.seq.toInt32 },
    fun shm => shm.setHeader slot fun h => { h with timestamp := p.now },
    fun shm => shm.setHeader slot fun h => { h with dataSize := UInt32.ofNat p.size },
    fun shm => shm.setHeader slot fun h => { h with type := p.type },
    fun shm => shm.setHeader slot fun h => { h with poolOffset := p.offset },
    fun shm => { shm with writeIndex := shm.writeIndex + 1 }]

def enqueuePrefix (p : Publication) (count : Nat) (shm : TopicShm) : TopicShm :=
  ((enqueueWrites p (TopicShm.slotOf shm.writeIndex)).take count).foldl (fun s write => write s) shm

def enqueue (p : Publication) (shm : TopicShm) : TopicShm :=
  enqueuePrefix p (enqueueWrites p (TopicShm.slotOf shm.writeIndex)).length shm

abbrev enqueueLength : Nat := 7

theorem enqueue_eq (p : Publication) (shm : TopicShm) :
    enqueue p shm = { shm with
      seq := shm.seq + 1
      writeIndex := shm.writeIndex + 1
      buffer := Function.update shm.buffer (TopicShm.slotOf shm.writeIndex)
        (p.header (shm.seq + 1)) } := by
  simp [enqueue, enqueuePrefix, enqueueWrites, TopicShm.setHeader, Publication.header]

theorem enqueuePrefix_all {p : Publication} {count : Nat} (all : enqueueLength ≤ count)
    (shm : TopicShm) : enqueuePrefix p count shm = enqueue p shm := by
  rw [enqueue, enqueuePrefix, enqueuePrefix, List.take_length, List.take_of_length_le all]

/-- The critical section of a publish, from the lock to the unlock. -/
def publishLocked (p : Publication) (shm : TopicShm) : Option TopicShm :=
  shm.lockRobust.map fun shm => (enqueue p shm).unlock

/-- The same critical section, left by the death of the process after `count` writes. -/
def publishDies (p : Publication) (count : Nat) (shm : TopicShm) : Option TopicShm :=
  shm.lockRobust.map fun shm => (enqueuePrefix p count shm).ownerDies

/-- The slot a publish filled is the slot the next receive reads, also when the 32-bit
index wraps: both are computed from the index before the increment. -/
theorem newest_enqueue (p : Publication) (shm : TopicShm) :
    (enqueue p shm).newest = p.header (shm.seq + 1) := by
  simp [enqueue_eq, TopicShm.newest]

end ComIpc.Topic
