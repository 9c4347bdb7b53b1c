import ComIpc.Udp.Header

/-! The four UDP endpoints.

The kernel's part is in the arguments: the clock, whether a datagram is taken by
`sendto`, and what `recvfrom` gives. Addresses are of one kind and length, so the
length field of a client's address is left out.
-/

set_option autoImplicit false

namespace ComIpc.Udp

/-- `sockaddr_in`. -/
structure SockAddr where
  addr : UInt32
  port : UInt16
  deriving DecidableEq, Repr

/-- The longest payload of an IPv4 datagram; `sendto` refuses more. -/
abbrev maxDatagram : Nat := 65507

/-- `char buffer[65536]`. -/
abbrev receiveBuffer : Nat := 65536

/-- What `sendto` hands to the network and what it returns. -/
def sendto (destination : SockAddr) (bytes : Bytes) (accepted : Bool) :
    Option (SockAddr × Bytes) × Int :=
  if accepted = true ∧ bytes.length ≤ maxDatagram then
    (some (destination, bytes), Int.ofNat bytes.length)
  else (none, -1)

/-- What `recvfrom` leaves in the buffer; the rest of a longer datagram is lost. -/
def recvfrom (datagram : Bytes) : Bytes := datagram.take receiveBuffer

/-- The test at the head of every send: the socket, the pointer and the size. A null pointer
is `none`. -/
def admitted (sock : Int) (data : Option Bytes) : Option Bytes :=
  data.filter fun payload => decide (¬ (sock < 0 ∨ payload.length = 0))

structure UDPPublisher where
  sock : Int
  destAddr : SockAddr
  currentSeq : UInt32
  deriving DecidableEq, Repr

def UDPPublisher.publish (node : UDPPublisher) (data : Option Bytes) (now : UInt64)
    (accepted : Bool) : UDPPublisher × Option (SockAddr × Bytes) × Bool :=
  match admitted node.sock data with
  | none => (node, none, false)
  | some payload =>
    -- the number is used up whether or not the datagram gets out
    let node := { node with currentSeq := node.currentSeq + 1 }
    let bytes := packet ⟨node.currentSeq, now, 0x00, 0x00⟩ payload
    let sent := sendto node.destAddr bytes accepted
    (node, sent.1, decide (sent.2 = Int.ofNat bytes.length))

structure UDPSubscriber where
  sock : Int
  lastValidSeq : UInt32
  deriving DecidableEq, Repr

/-- The test against packets that come late: 0 stands for nothing received yet. -/
def UDPSubscriber.stale (node : UDPSubscriber) (seqId : UInt32) : Bool :=
  decide (node.lastValidSeq ≠ 0 ∧ seqId ≤ node.lastValidSeq)

/-- `UDPSubscriber::receive`; the empty string also stands for a packet that was dropped. -/
def UDPSubscriber.receive (node : UDPSubscriber) (arrived : Option Bytes) :
    UDPSubscriber × Bytes :=
  if node.sock < 0 then (node, [])
  else
    match arrived with
    | none => (node, [])
    | some datagram =>
      let buffer := recvfrom datagram
      if buffer.length < QoSHeader.bytes then (node, [])
      else
        let header := QoSHeader.ofImage buffer
        if node.stale header.seqId then (node, [])
        else ({ node with lastValidSeq := header.seqId }, buffer.drop QoSHeader.bytes)

structure UDPServiceClient where
  sock : Int
  serverAddr : SockAddr
  currentRequestId : UInt32
  deriving DecidableEq, Repr

namespace UDPServiceClient

/-- The first part of `call`, up to the receive loop; without a result the call returns at
once. -/
def request (node : UDPServiceClient) (data : Option Bytes) (now : UInt64) (accepted : Bool) :
    Option (UDPServiceClient × Option (SockAddr × Bytes)) :=
  (admitted node.sock data).map fun payload =>
    let node := { node with currentRequestId := node.currentRequestId + 1 }
    let bytes := packet ⟨node.currentRequestId, now, 0x01, 0x01⟩ payload
    -- the result of the send is not looked at
    (node, (sendto node.serverAddr bytes accepted).1)

/-- One round of the receive loop over a datagram: the reply that ends it, if it is one. -/
def reply (node : UDPServiceClient) (datagram : Bytes) : Option Bytes :=
  let buffer := recvfrom datagram
  if QoSHeader.bytes ≤ buffer.length then
    let header := QoSHeader.ofImage buffer
    if header.msgType = 0x02 ∧ header.seqId = node.currentRequestId then
      some (buffer.drop QoSHeader.bytes)
    else none
  else none

/-- The receive loop, over what the calls of `recvfrom` give: a datagram, or nothing in time.
There is no result as long as the last of them has not ended it. -/
def await (node : UDPServiceClient) : List (Option Bytes) → Option (Bytes × List (Option Bytes))
  | [] => none
  | none :: later => some ([], later)
  | some datagram :: later =>
    match node.reply datagram with
    | some payload => some (payload, later)
    | none => node.await later

/-- `call`: the client after it, and what it returns with what `recvfrom` has left. -/
def call (node : UDPServiceClient) (data : Option Bytes) (now : UInt64) (accepted : Bool)
    (arrivals : List (Option Bytes)) :
    UDPServiceClient × Option (Bytes × List (Option Bytes)) :=
  match node.request data now accepted with
  | none => (node, some ([], arrivals))
  | some (node, _) => (node, node.await arrivals)

end UDPServiceClient

structure UDPClientAddress where
  addr : SockAddr
  requestId : UInt32
  deriving DecidableEq, Repr

structure UDPServiceServer where
  sock : Int
  deriving DecidableEq, Repr

namespace UDPServiceServer

/-- `receive_request`, with what its two output arguments held before. -/
def receiveRequest (arrived : Option (SockAddr × Bytes)) (outRequest : Bytes)
    (outClientInfo : UDPClientAddress) : Bool × Bytes × UDPClientAddress :=
  match arrived with
  | none => (false, outRequest, outClientInfo)
  | some (sender, datagram) =>
    -- the sender is filled in by `recvfrom`, whatever becomes of the packet
    let outClientInfo := { outClientInfo with addr := sender }
    let buffer := recvfrom datagram
    if QoSHeader.bytes ≤ buffer.length then
      let header := QoSHeader.ofImage buffer
      if header.msgType = 0x01 then
        (true, buffer.drop QoSHeader.bytes, { outClientInfo with requestId := header.seqId })
      else (false, outRequest, outClientInfo)
    else (false, outRequest, outClientInfo)

def sendResponse (node : UDPServiceServer) (data : Option Bytes) (clientInfo : UDPClientAddress)
    (now : UInt64) (accepted : Bool) : Option (SockAddr × Bytes) × Bool :=
  match admitted node.sock data with
  | none => (none, false)
  | some payload =>
    let bytes := packet ⟨clientInfo.requestId, now, 0x02, 0x00⟩ payload
    let sent := sendto clientInfo.addr bytes accepted
    (sent.1, decide (sent.2 = Int.ofNat bytes.length))

end UDPServiceServer

theorem admitted_nonempty {sock : Int} {data : Option Bytes} {payload : Bytes}
    (passed : admitted sock data = some payload) : payload ≠ [] := by
  obtain ⟨_, accepted⟩ := Option.filter_eq_some_iff.mp passed
  rintro rfl
  simp at accepted

theorem sendto_eq {destination receiver : SockAddr} {bytes datagram : Bytes} {accepted : Bool}
    (sent : (sendto destination bytes accepted).1 = some (receiver, datagram)) :
    receiver = destination ∧ datagram = bytes ∧ recvfrom datagram = bytes := by
  unfold sendto at sent
  split at sent
  · rename_i fits
    simp only [Option.some.injEq, Prod.mk.injEq] at sent
    obtain ⟨rfl, rfl⟩ := sent
    exact ⟨rfl, rfl, List.take_of_length_le (Nat.le_trans fits.2 (by decide))⟩
  · contradiction

theorem UDPPublisher.publish_node (node : UDPPublisher) (data : Option Bytes) (now : UInt64)
    (accepted : Bool) : (node.publish data now accepted).1 =
      { node with
        currentSeq := node.currentSeq + UInt32.ofNat (admitted node.sock data).toList.length } := by
  unfold publish
  split
  · rename_i refused
    simp [refused]
  · rename_i payload passed
    simp [passed]

theorem UDPPublisher.publish_sent {node : UDPPublisher} {data : Option Bytes} {now : UInt64}
    {accepted : Bool} {receiver : SockAddr} {datagram : Bytes}
    (sent : (node.publish data now accepted).2.1 = some (receiver, datagram)) :
    ∃ payload, admitted node.sock data = some payload ∧
      recvfrom datagram = packet ⟨node.currentSeq + 1, now, 0x00, 0x00⟩ payload := by
  unfold publish at sent
  split at sent
  · contradiction
  · rename_i payload passed
    exact ⟨payload, passed, (sendto_eq sent).2.2⟩

theorem UDPServiceClient.request_sent {node after : UDPServiceClient} {data : Option Bytes}
    {now : UInt64} {accepted : Bool} {out : Option (SockAddr × Bytes)}
    (requested : node.request data now accepted = some (after, out)) :
    after = { node with currentRequestId := node.currentRequestId + 1 } ∧
      ∃ payload, admitted node.sock data = some payload ∧ ∀ d ∈ out,
        recvfrom d.2 = packet ⟨node.currentRequestId + 1, now, 0x01, 0x01⟩ payload := by
  obtain ⟨payload, passed, same⟩ := Option.map_eq_some_iff.mp requested
  simp only [Prod.mk.injEq] at same
  obtain ⟨rfl, rfl⟩ := same
  exact ⟨rfl, payload, passed, fun d sent => (sendto_eq sent).2.2⟩

theorem UDPServiceServer.sendResponse_sent {node : UDPServiceServer} {data : Option Bytes}
    {clientInfo : UDPClientAddress} {now : UInt64} {accepted : Bool} {d : SockAddr × Bytes}
    (sent : (node.sendResponse data clientInfo now accepted).1 = some d) :
    ∃ payload, data = some payload ∧ d.1 = clientInfo.addr ∧
      recvfrom d.2 = packet ⟨clientInfo.requestId, now, 0x02, 0x00⟩ payload := by
  unfold sendResponse at sent
  split at sent
  · contradiction
  · rename_i payload passed
    obtain ⟨given, _⟩ := Option.filter_eq_some_iff.mp passed
    obtain ⟨receiver, _, whole⟩ := sendto_eq sent
    exact ⟨payload, given, receiver, whole⟩

theorem UDPSubscriber.receive_packet {node : UDPSubscriber} (opened : ¬ node.sock < 0)
    {datagram payload : Bytes} {header : QoSHeader}
    (whole : recvfrom datagram = packet header payload) :
    node.receive (some datagram) =
      if node.stale header.seqId then (node, [])
      else ({ node with lastValidSeq := header.seqId }, payload) := by
  have long : ¬ (packet header payload).length < QoSHeader.bytes := by
    rw [length_packet]
    omega
  simp only [receive, if_neg opened, whole, if_neg long, ofImage_packet, drop_packet]

theorem UDPServiceClient.reply_packet {node : UDPServiceClient} {datagram payload : Bytes}
    {header : QoSHeader} (whole : recvfrom datagram = packet header payload) :
    node.reply datagram =
      if header.msgType = 0x02 ∧ header.seqId = node.currentRequestId then some payload
      else none := by
  have long : QoSHeader.bytes ≤ (packet header payload).length := by
    rw [length_packet]
    omega
  simp only [reply, whole, if_pos long, ofImage_packet, drop_packet]

theorem UDPServiceServer.receiveRequest_packet {sender : SockAddr} {datagram payload : Bytes}
    {header : QoSHeader} (whole : recvfrom datagram = packet header payload)
    (outRequest : Bytes) (outClientInfo : UDPClientAddress) :
    receiveRequest (some (sender, datagram)) outRequest outClientInfo =
      if header.msgType = 0x01 then (true, payload, ⟨sender, header.seqId⟩)
      else (false, outRequest, { outClientInfo with addr := sender }) := by
  have long : QoSHeader.bytes ≤ (packet header payload).length := by
    rw [length_packet]
    omega
  simp only [receiveRequest, whole, if_pos long, ofImage_packet, drop_packet]

end ComIpc.Udp
