import ComIpc.Semantics.Filtering
import ComIpc.Udp.Strays

/-! Datagrams of another kind.

A receiver shares its port with whatever else is sent there. Its datagrams are those
with its own type in a complete envelope; every run is compared with the run over these
alone.
-/

set_option autoImplicit false

namespace ComIpc.Udp

open Semantics

/-- One call of `receive`, with the string if one was handed out. -/
def UDPSubscriber.hand (node : UDPSubscriber) (datagram : Bytes) :
    UDPSubscriber × Option Bytes :=
  let (after, string) := node.receive (some datagram)
  (after, if string = [] then none else some string)

/-- One call of `receive_request` on the arguments of the call before, with what it filled in
if it returned true. -/
def UDPServiceServer.hand (out : Bytes × UDPClientAddress) (arrival : SockAddr × Bytes) :
    (Bytes × UDPClientAddress) × Option (Bytes × UDPClientAddress) :=
  let (received, out) := receiveRequest (some arrival) out.1 out.2
  (out, if received then some out else none)

/-- The three receivers on one stream of datagrams, from any state of theirs. A client calls at
any times and with any timeouts, and a part of the stream comes at any times. -/
structure KeptApart (node : UDPSubscriber) (datagrams : List Bytes) : Prop where
  subscriber : Filtering.Agrees UDPSubscriber.hand (ofKind 0x00) node datagrams
  server : ∀ arrivals : List (SockAddr × Bytes), arrivals.map Prod.snd = datagrams →
    ∀ out, (Filtering.run UDPServiceServer.hand out arrivals).2 =
      (Filtering.run UDPServiceServer.hand out (arrivals.filter (ofKind 0x01 ·.2))).2
  client : ∀ queue : Queue, queue.arrivals.map Arrival.bytes <+: datagrams →
    ∀ (client : UDPServiceClient) askings, client.callsAt 0 askings queue.arrivals =
      client.callsAt 0 askings (queue.arrivals.filter Arrival.isReply)

/-- No datagram of another type gets past the test of a subscriber that receives its own
datagrams only, unless it is empty and has the number 0 of a subscriber that has received
nothing. -/
def Harmless (node : UDPSubscriber) : List Bytes → Prop
  | [] => True
  | datagram :: later =>
    let buffer := recvfrom datagram
    let seqId := (QoSHeader.ofImage buffer).seqId
    if ofKind 0x00 datagram then
      Harmless (if node.stale seqId then node else { node with lastValidSeq := seqId }) later
    else
      (QoSHeader.bytes ≤ buffer.length → node.stale seqId = true ∨
        node.lastValidSeq = 0 ∧ seqId = 0 ∧ buffer.drop QoSHeader.bytes = []) ∧
      Harmless node later

-- the subscriber

theorem UDPSubscriber.hand_closed {node : UDPSubscriber} (closed : node.sock < 0)
    (datagram : Bytes) : Filtering.Silent hand node datagram := by
  simp [Filtering.Silent, hand, receive, closed]

theorem UDPSubscriber.hand_short {node : UDPSubscriber} {datagram : Bytes}
    (short : (recvfrom datagram).length < QoSHeader.bytes) :
    Filtering.Silent hand node datagram := by
  simp [Filtering.Silent, hand, receive, short]

theorem UDPSubscriber.hand_complete {node : UDPSubscriber} (opened : ¬ node.sock < 0)
    {datagram : Bytes} (complete : QoSHeader.bytes ≤ (recvfrom datagram).length) :
    node.hand datagram =
      let seqId := (QoSHeader.ofImage (recvfrom datagram)).seqId
      let payload := (recvfrom datagram).drop QoSHeader.bytes
      if node.stale seqId then (node, none)
      else ({ node with lastValidSeq := seqId }, if payload = [] then none else some payload) := by
  simp only [hand, receive, if_neg opened, if_neg (Nat.not_lt.mpr complete)]
  split <;> rfl

theorem UDPSubscriber.silent_iff {node : UDPSubscriber} (opened : ¬ node.sock < 0)
    (datagram : Bytes) : Filtering.Silent hand node datagram ↔
      (QoSHeader.bytes ≤ (recvfrom datagram).length →
        node.stale (QoSHeader.ofImage (recvfrom datagram)).seqId = true ∨
        node.lastValidSeq = 0 ∧ (QoSHeader.ofImage (recvfrom datagram)).seqId = 0 ∧
          (recvfrom datagram).drop QoSHeader.bytes = []) := by
  by_cases complete : QoSHeader.bytes ≤ (recvfrom datagram).length
  · rw [Filtering.Silent, hand_complete opened complete]
    generalize (QoSHeader.ofImage (recvfrom datagram)).seqId = seqId
    generalize (recvfrom datagram).drop QoSHeader.bytes = payload
    by_cases stale : node.stale seqId = true
    · simp [stale]
    · obtain ⟨sock, lastValidSeq⟩ := node
      have fresh : lastValidSeq = 0 ∨ lastValidSeq < seqId := by
        simpa [UDPSubscriber.stale, Classical.or_iff_not_imp_left] using stale
      have same : seqId = lastValidSeq ↔ lastValidSeq = 0 ∧ seqId = 0 := by
        constructor
        · rintro rfl
          have zero := fresh.resolve_right (UInt32.lt_irrefl seqId)
          exact ⟨zero, zero⟩
        · rintro ⟨rfl, rfl⟩
          rfl
      have silent : (if payload = [] then none else some payload) = none ↔ payload = [] := by
        split <;> simp_all
      rw [if_neg stale, Prod.mk.injEq, UDPSubscriber.mk.injEq, silent, same]
      simp only [stale, complete, true_and, forall_const, Bool.false_eq_true, false_or, and_assoc]
  · exact iff_of_true (hand_short (Nat.not_le.mp complete)) fun whole => absurd whole complete

theorem harmless_iff_quiet {node : UDPSubscriber} (opened : ¬ node.sock < 0)
    (datagrams : List Bytes) :
    Harmless node datagrams ↔ Filtering.Quiet UDPSubscriber.hand (ofKind 0x00) node datagrams := by
  induction datagrams generalizing node with
  | nil => exact Iff.rfl
  | cons datagram later ih =>
    rw [Harmless, Filtering.Quiet]
    by_cases own : ofKind 0x00 datagram = true
    · have complete := (of_decide_eq_true own).1
      rw [if_pos own, if_pos own, UDPSubscriber.hand_complete opened complete]
      by_cases stale : node.stale (QoSHeader.ofImage (recvfrom datagram)).seqId = true
      · simp only [if_pos stale]
        exact ih opened
      · simp only [if_neg stale]
        exact ih opened
    · rw [if_neg own, if_neg own, UDPSubscriber.silent_iff opened, ih opened]

-- the server

theorem UDPServiceServer.hand_other {arrival : SockAddr × Bytes}
    (other : ofKind 0x01 arrival.2 = false) (out : Bytes × UDPClientAddress) :
    (hand out arrival).2 = none := by
  obtain ⟨sender, datagram⟩ := arrival
  have other := not_and.mp (of_decide_eq_false other)
  simp only [hand, receiveRequest]
  by_cases complete : QoSHeader.bytes ≤ (recvfrom datagram).length
  · simp [complete, other complete]
  · simp [complete]

theorem UDPServiceServer.hand_own {arrival : SockAddr × Bytes}
    (own : ofKind 0x01 arrival.2 = true) (out out' : Bytes × UDPClientAddress) :
    hand out arrival = hand out' arrival := by
  obtain ⟨sender, datagram⟩ := arrival
  obtain ⟨complete, type⟩ := of_decide_eq_true own
  simp [hand, receiveRequest, complete, type]

theorem UDPServiceServer.run_filter (arrivals : List (SockAddr × Bytes))
    (out out' : Bytes × UDPClientAddress) :
    (Filtering.run hand out arrivals).2 =
      (Filtering.run hand out' (arrivals.filter (ofKind 0x01 ·.2))).2 := by
  induction arrivals generalizing out out' with
  | nil => rfl
  | cons arrival later ih =>
    by_cases own : ofKind 0x01 arrival.2 = true
    · simp only [List.filter_cons, own, if_true, Filtering.run]
      rw [hand_own own out out', ih _ (hand out' arrival).1]
    · simp only [List.filter_cons, own, Filtering.run]
      rw [hand_other (Bool.eq_false_iff.mpr own), ih _ out']
      rfl

/-- No datagram of the client's type comes after one of another type. -/
def RepliesLead (datagrams : List Bytes) : Prop :=
  datagrams.Pairwise fun earlier later => ofKind 0x02 later = true → ofKind 0x02 earlier = true

theorem UDPServiceClient.apart_iff (datagrams : List Bytes) :
    (∀ queue : Queue, queue.arrivals.map Arrival.bytes <+: datagrams →
      ∀ (client : UDPServiceClient) askings, client.callsAt 0 askings queue.arrivals =
        client.callsAt 0 askings (queue.arrivals.filter Arrival.isReply)) ↔
      RepliesLead datagrams := by
  constructor
  · intro apart
    by_contra mixed
    obtain ⟨early, other, own, before, stray, reply⟩ := Filtering.exists_adjacent mixed
    obtain ⟨arrivals, ordered, bytes, client, askings, differ⟩ := stray_matters early stray reply
    exact differ (apart ⟨arrivals, ordered⟩ (bytes ▸ before) client askings)
  · intro lead queue before client askings
    have first : RepliesFirst queue.arrivals :=
      List.pairwise_map.mp (lead.sublist before.sublist)
    exact first.callsAt client 0 askings

/-- A server always keeps the kinds apart. A subscriber does exactly when the other datagrams
are harmless, and a client exactly when they come last. -/
theorem kinds_apart_iff (node : UDPSubscriber) (datagrams : List Bytes) :
    KeptApart node datagrams ↔
      (node.sock < 0 ∨ Harmless node datagrams) ∧ RepliesLead datagrams := by
  constructor
  · intro apart
    refine ⟨?_, (UDPServiceClient.apart_iff datagrams).mp apart.client⟩
    by_cases closed : node.sock < 0
    · exact .inl closed
    · have quiet := Filtering.agrees_iff.mp apart.subscriber
      exact .inr ((harmless_iff_quiet closed datagrams).mpr quiet)
  · rintro ⟨condition, lead⟩
    have quiet : Filtering.Quiet UDPSubscriber.hand (ofKind 0x00) node datagrams := by
      by_cases closed : node.sock < 0
      · refine Filtering.quiet_of_silent (fun node => node.sock < 0) ?_ ?_ closed datagrams
        · intro node datagram closed _
          rwa [UDPSubscriber.hand_closed closed datagram]
        · intro node datagram closed _
          exact UDPSubscriber.hand_closed closed datagram
      · exact (harmless_iff_quiet closed datagrams).mp (condition.resolve_left closed)
    exact ⟨Filtering.agrees_iff.mpr quiet,
      fun arrivals _ out => UDPServiceServer.run_filter arrivals out out,
      (UDPServiceClient.apart_iff datagrams).mpr lead⟩

theorem request_handed_out : ¬ ∀ node datagrams, KeptApart node datagrams := by
  intro claim
  have agrees := (claim ⟨3, 0⟩ [packet ⟨1, 0, 0x01, 0x01⟩ [7]]).subscriber _ List.prefix_rfl
  exact absurd (congrArg Prod.snd agrees) (by decide)

end ComIpc.Udp
