import ComIpc.Semantics.Machine
import ComIpc.Topic.Delivery
import ComIpc.Udp.Node

/-! Clients and one server over a network that loses, repeats, delays and reorders
datagrams.

A datagram may arrive at any later moment, any number of times or never, but only at the
socket it was sent to. The clients are told apart by the address of their socket, each
of which belongs to one client for the whole run. The server answers whatever it was
given by a successful `receive_request`, in any order and as often as it likes. `called`,
`responses`, `returned` and the numbers are ghosts: the requests that were admitted, what
`send_response` got out, and the strings that ended a receive loop.
-/

set_option autoImplicit false

namespace ComIpc.Udp.Session

open Semantics

/-- A datagram on its way, with the number of the call that it asks or answers. -/
structure Datagram where
  source : SockAddr
  destination : SockAddr
  number : Nat
  bytes : Bytes
  deriving DecidableEq, Repr

/-- What `receive_request` filled in. -/
structure Received where
  request : Bytes
  clientInfo : UDPClientAddress
  number : Nat
  deriving DecidableEq, Repr

structure Response where
  client : SockAddr
  number : Nat
  request : Bytes
  response : Bytes
  deriving DecidableEq, Repr

structure Returned where
  client : SockAddr
  number : Nat
  string : Bytes
  deriving DecidableEq, Repr

/-- A client, and whether it is in the receive loop of a call. -/
structure Client where
  node : UDPServiceClient
  waiting : Bool
  deriving DecidableEq, Repr

structure State where
  clients : SockAddr → Option Client
  server : UDPServiceServer
  localAddr : SockAddr
  called : SockAddr → List Bytes
  sent : List Datagram
  received : List Received
  responses : List Response
  returned : List Returned

inductive Event where
  | construct (c : SockAddr) (sock : Int) (serverAddr : SockAddr)
  | call (c : SockAddr) (data : Option Bytes) (now : UInt64) (taken : Bool)
  /-- One round of the receive loop of a call: a timeout, or a datagram that was sent here. -/
  | reply (c : SockAddr) (arrival : Option Nat)
  | receiveRequest (arrival : Nat)
  /-- An answer to one of the requests that were received. -/
  | sendResponse (request : Nat) (data : Option Bytes) (now : UInt64) (taken : Bool)
  deriving DecidableEq, Repr

def State.put (s : State) (c : SockAddr) (client : Client) : State :=
  { s with clients := Function.update s.clients c (some client) }

def next (s : State) : Event → Option State
  | .construct c sock serverAddr => do
    guard (s.clients c).isNone
    some (s.put c ⟨⟨sock, serverAddr, 0⟩, false⟩)
  | .call c data now taken => do
    let client ← s.clients c
    guard (client.waiting = false)
    match client.node.request data now taken with
    | none => some s
    | some (node, out) =>
      let called := s.called c ++ (admitted client.node.sock data).toList
      some { s.put c ⟨node, true⟩ with
        called := Function.update s.called c called
        sent := s.sent ++ out.toList.map fun d => ⟨c, d.1, called.length, d.2⟩ }
  | .reply c none => do
    let client ← s.clients c
    guard (client.waiting = true)
    some (s.put c { client with waiting := false })
  | .reply c (some k) => do
    let client ← s.clients c
    guard (client.waiting = true)
    let d ← s.sent[k]?
    guard (d.destination = c)
    match client.node.reply d.bytes with
    | none => some s
    | some string =>
      some { s.put c { client with waiting := false } with
        returned := s.returned ++ [⟨c, (s.called c).length, string⟩] }
  | .receiveRequest k => do
    guard (0 ≤ s.server.sock)
    let d ← s.sent[k]?
    guard (d.destination = s.localAddr)
    -- what the output arguments held before is overwritten by a success
    match UDPServiceServer.receiveRequest (some (d.source, d.bytes)) [] ⟨d.source, 0⟩ with
    | (true, request, clientInfo) =>
      some { s with received := s.received ++ [⟨request, clientInfo, d.number⟩] }
    | (false, _, _) => some s
  | .sendResponse k data now taken => do
    let i ← s.received[k]?
    let out := (s.server.sendResponse data i.clientInfo now taken).1
    some { s with
      sent := s.sent ++ out.toList.map fun d => ⟨s.localAddr, d.1, i.number, d.2⟩
      responses := s.responses ++
        out.toList.map fun _ => ⟨i.clientInfo.addr, i.number, i.request, data.getD []⟩ }

def State.init (sock : Int) (localAddr : SockAddr) : State :=
  ⟨fun _ => none, ⟨sock⟩, localAddr, fun _ => [], [], [], [], []⟩

def machine : Machine State Event where
  initial := fun s => ∃ sock localAddr, s = .init sock localAddr
  next := next

inductive Step (s : State) : Event → State → Prop where
  | constructed (c : SockAddr) (sock : Int) (serverAddr : SockAddr) : s.clients c = none →
      Step s (.construct c sock serverAddr) (s.put c ⟨⟨sock, serverAddr, 0⟩, false⟩)
  | refused (c : SockAddr) (data : Option Bytes) (now : UInt64) (taken : Bool) :
      Step s (.call c data now taken) s
  | called (c : SockAddr) (data : Option Bytes) (now : UInt64) (taken : Bool) {client : Client}
      {node : UDPServiceClient} {out : Option (SockAddr × Bytes)} : s.clients c = some client →
      client.node.request data now taken = some (node, out) →
      Step s (.call c data now taken) { s.put c ⟨node, true⟩ with
        called := Function.update s.called c
          (s.called c ++ (admitted client.node.sock data).toList)
        sent := s.sent ++ out.toList.map fun d =>
          ⟨c, d.1, (s.called c ++ (admitted client.node.sock data).toList).length, d.2⟩ }
  | timedOut (c : SockAddr) {client : Client} : s.clients c = some client →
      Step s (.reply c none) (s.put c { client with waiting := false })
  | passedOver (c : SockAddr) (k : Nat) : Step s (.reply c (some k)) s
  | replied (c : SockAddr) (k : Nat) {client : Client} {d : Datagram} {string : Bytes} :
      s.clients c = some client → d ∈ s.sent → d.destination = c →
      client.node.reply d.bytes = some string →
      Step s (.reply c (some k)) { s.put c { client with waiting := false } with
        returned := s.returned ++ [⟨c, (s.called c).length, string⟩] }
  | requested (k : Nat) {d : Datagram} {request : Bytes} {clientInfo : UDPClientAddress} :
      d ∈ s.sent →
      UDPServiceServer.receiveRequest (some (d.source, d.bytes)) [] ⟨d.source, 0⟩ =
        (true, request, clientInfo) →
      Step s (.receiveRequest k)
        { s with received := s.received ++ [⟨request, clientInfo, d.number⟩] }
  | ignored (k : Nat) : Step s (.receiveRequest k) s
  | responded (k : Nat) (data : Option Bytes) (now : UInt64) (taken : Bool) {i : Received} :
      i ∈ s.received → Step s (.sendResponse k data now taken) { s with
        sent := s.sent ++ (s.server.sendResponse data i.clientInfo now taken).1.toList.map
          fun d => ⟨s.localAddr, d.1, i.number, d.2⟩
        responses := s.responses ++
          (s.server.sendResponse data i.clientInfo now taken).1.toList.map
            fun _ => ⟨i.clientInfo.addr, i.number, i.request, data.getD []⟩ }

theorem next_step {s t : State} {e : Event} (taken : next s e = some t) : Step s e t := by
  cases e with
  | construct c sock serverAddr =>
    simp only [next, Option.bind_eq_bind, Option.bind_eq_some_iff, guard_passed,
      Option.some.injEq, Option.isNone_iff_eq_none] at taken
    obtain ⟨_, fresh, rfl⟩ := taken
    exact .constructed c sock serverAddr fresh
  | call c data now accepted =>
    simp only [next, Option.bind_eq_bind, Option.bind_eq_some_iff] at taken
    obtain ⟨client, alive, _, _, taken⟩ := taken
    split at taken
    · obtain rfl := Option.some.inj taken
      exact .refused c data now accepted
    · rename_i node out requested
      obtain rfl := Option.some.inj taken
      exact .called c data now accepted alive requested
  | reply c arrival =>
    cases arrival with
    | none =>
      simp only [next, Option.bind_eq_bind, Option.bind_eq_some_iff, Option.some.injEq] at taken
      obtain ⟨client, alive, _, _, rfl⟩ := taken
      exact .timedOut c alive
    | some k =>
      simp only [next, Option.bind_eq_bind, Option.bind_eq_some_iff, guard_passed] at taken
      obtain ⟨client, alive, _, _, d, found, _, here, taken⟩ := taken
      split at taken
      · obtain rfl := Option.some.inj taken
        exact .passedOver c k
      · rename_i string ends
        obtain rfl := Option.some.inj taken
        exact .replied c k alive (List.mem_of_getElem? found) here ends
  | receiveRequest k =>
    simp only [next, Option.bind_eq_bind, Option.bind_eq_some_iff] at taken
    obtain ⟨_, _, d, found, _, _, taken⟩ := taken
    split at taken
    · rename_i request clientInfo filled
      obtain rfl := Option.some.inj taken
      exact .requested k (List.mem_of_getElem? found) filled
    · obtain rfl := Option.some.inj taken
      exact .ignored k
  | sendResponse k data now accepted =>
    simp only [next, Option.bind_eq_bind, Option.bind_eq_some_iff, Option.some.injEq] at taken
    obtain ⟨i, found, rfl⟩ := taken
    exact .responded k data now accepted (List.mem_of_getElem? found)

/-- What a datagram carries: a request that was admitted, or a response that was sent. -/
inductive Carries (s : State) (d : Datagram) : Prop where
  | request {now : UInt64} {payload : Bytes} :
    Topic.nth (s.called d.source) d.number = some payload →
    recvfrom d.bytes = packet ⟨UInt32.ofNat d.number, now, 0x01, 0x01⟩ payload → Carries s d
  | response {now : UInt64} {request payload : Bytes} :
    ⟨d.destination, d.number, request, payload⟩ ∈ s.responses →
    recvfrom d.bytes = packet ⟨UInt32.ofNat d.number, now, 0x02, 0x00⟩ payload → Carries s d

/-- The session numbers are the residues of the numbers of the calls. -/
structure Sound (s : State) : Prop where
  counter : ∀ c client, s.clients c = some client →
    client.node.currentRequestId = UInt32.ofNat (s.called c).length
  unborn : ∀ c, s.clients c = none → s.called c = []
  carries : ∀ d ∈ s.sent, Carries s d
  received : ∀ i ∈ s.received, i.clientInfo.requestId = UInt32.ofNat i.number ∧
    Topic.nth (s.called i.clientInfo.addr) i.number = some i.request
  responses : ∀ r ∈ s.responses, Topic.nth (s.called r.client) r.number = some r.request

/-- The string answers the call that returned it: the server was given exactly the bytes of
this call and sent the string in return. -/
def Answered (s : State) (r : Returned) : Prop :=
  ∃ request, Topic.nth (s.called r.client) r.number = some request ∧
    ⟨r.client, r.number, request, r.string⟩ ∈ s.responses

structure Extends (s t : State) : Prop where
  called : ∀ c, s.called c <+: t.called c
  responses : s.responses ⊆ t.responses

theorem Extends.of_same {s t : State} (called : t.called = s.called)
    (responses : t.responses = s.responses) : Extends s t where
  called := fun _ => called ▸ List.prefix_rfl
  responses := fun _ among => responses ▸ among

theorem Extends.nth {s t : State} (extends_ : Extends s t) {c : SockAddr} {n : Nat}
    {request : Bytes} (found : Topic.nth (s.called c) n = some request) :
    Topic.nth (t.called c) n = some request := by
  obtain ⟨more, same⟩ := extends_.called c
  rw [← same]
  exact Topic.nth_append more found

theorem Extends.carries {s t : State} (extends_ : Extends s t) {d : Datagram}
    (carries : Carries s d) : Carries t d := by
  cases carries with
  | request found whole => exact .request (extends_.nth found) whole
  | response logged whole => exact .response (extends_.responses logged) whole

theorem Extends.answered {s t : State} (extends_ : Extends s t) {r : Returned}
    (answered : Answered s r) : Answered t r := by
  obtain ⟨request, found, logged⟩ := answered
  exact ⟨request, extends_.nth found, extends_.responses logged⟩

theorem Step.extends_ {s t : State} {e : Event} (step : Step s e t) : Extends s t := by
  cases step with
  | constructed | refused | timedOut | passedOver | replied | requested | ignored =>
    exact .of_same rfl rfl
  | called c =>
    refine ⟨fun q => ?_, fun _ among => among⟩
    by_cases self : q = c
    · subst self
      simp only [Function.update_self]
      exact List.prefix_append _ _
    · simp only [Function.update_of_ne self]
      exact List.prefix_rfl
  | responded => exact ⟨fun _ => List.prefix_rfl, List.subset_append_left _ _⟩

theorem Sound.init (sock : Int) (localAddr : SockAddr) : Sound (.init sock localAddr) where
  counter := nofun
  unborn := fun _ _ => rfl
  carries := nofun
  received := nofun
  responses := nofun

theorem Sound.put {s : State} (sound : Sound s) {c : SockAddr} {client : Client}
    (counter : client.node.currentRequestId = UInt32.ofNat (s.called c).length) :
    Sound (s.put c client) where
  counter := (Function.forall_update_iff s.clients fun q now => ∀ client, now = some client →
    client.node.currentRequestId = UInt32.ofNat (s.called q).length).mpr
      ⟨fun _ same => Option.some.inj same ▸ counter, fun q _ => sound.counter q⟩
  unborn := (Function.forall_update_iff s.clients fun q now => now = none →
    s.called q = []).mpr ⟨nofun, fun q _ => sound.unborn q⟩
  carries := by
    intro d among
    have same : Extends s (s.put c client) := .of_same rfl rfl
    exact same.carries (sound.carries d among)
  received := sound.received
  responses := sound.responses

theorem Sound.call {s t : State} (sound : Sound s) {c : SockAddr} {data : Option Bytes}
    {now : UInt64} {taken : Bool} (step : Step s (.call c data now taken) t) : Sound t := by
  have extends_ := step.extends_
  cases step with
  | refused => exact sound
  | @called _ _ _ _ client node out alive requested =>
    obtain ⟨rfl, payload, passed, whole⟩ := UDPServiceClient.request_sent requested
    simp only [passed, Option.toList_some] at *
    have counter : client.node.currentRequestId + 1 =
        UInt32.ofNat (s.called c ++ [payload]).length := by
      rw [sound.counter c client alive, List.length_append, UInt32.ofNat_add]
      rfl
    have last : Topic.nth (Function.update s.called c (s.called c ++ [payload]) c)
        (s.called c ++ [payload]).length = some payload := by
      rw [Function.update_self, Topic.nth_length, List.getLast?_concat]
    constructor
    case counter =>
      intro q other same
      by_cases self : q = c
      · subst self
        simp only [State.put, Function.update_self, Option.some.injEq] at same ⊢
        rw [← same]
        exact counter
      · simp only [State.put, Function.update_of_ne self] at same ⊢
        exact sound.counter q other same
    case unborn =>
      intro q gone
      by_cases self : q = c
      · subst self
        simp [State.put] at gone
      · simp only [State.put, Function.update_of_ne self] at gone ⊢
        exact sound.unborn q gone
    case carries =>
      intro d among
      rcases List.mem_append.mp among with old | new
      · exact extends_.carries (sound.carries d old)
      · obtain ⟨datagram, sent, rfl⟩ := List.mem_map.mp new
        exact .request last (counter ▸ whole datagram (Option.mem_toList.mp sent))
    case received =>
      intro i among
      obtain ⟨number, found⟩ := sound.received i among
      exact ⟨number, extends_.nth found⟩
    case responses => exact fun r among => extends_.nth (sound.responses r among)

theorem Sound.receiveRequest {s t : State} (sound : Sound s) {k : Nat}
    (step : Step s (.receiveRequest k) t) : Sound t := by
  have extends_ := step.extends_
  cases step with
  | ignored => exact sound
  | @requested _ d request clientInfo sent filled =>
    refine ⟨sound.counter, sound.unborn,
      fun d among => extends_.carries (sound.carries d among), ?_, sound.responses⟩
    intro i among
    rcases List.mem_append.mp among with old | new
    · exact sound.received i old
    · obtain rfl := List.mem_singleton.mp new
      cases sound.carries d sent with
      | request asked whole =>
        rw [UDPServiceServer.receiveRequest_packet whole, if_pos rfl] at filled
        simp only [Prod.mk.injEq, true_and] at filled
        obtain ⟨rfl, rfl⟩ := filled
        exact ⟨rfl, asked⟩
      | response logged whole =>
        rw [UDPServiceServer.receiveRequest_packet whole, if_neg (by simp)] at filled
        simp at filled

theorem Sound.sendResponse {s t : State} (sound : Sound s) {k : Nat} {data : Option Bytes}
    {now : UInt64} {taken : Bool} (step : Step s (.sendResponse k data now taken) t) :
    Sound t := by
  have extends_ := step.extends_
  cases step with
  | @responded _ _ _ _ i known =>
    obtain ⟨number, asked⟩ := sound.received i known
    refine ⟨sound.counter, sound.unborn, ?_, sound.received, ?_⟩
    · intro d among
      rcases List.mem_append.mp among with old | new
      · exact extends_.carries (sound.carries d old)
      · obtain ⟨datagram, sent, rfl⟩ := List.mem_map.mp new
        obtain ⟨payload, given, receiver, whole⟩ :=
          UDPServiceServer.sendResponse_sent (Option.mem_toList.mp sent)
        have logged : (⟨i.clientInfo.addr, i.number, i.request, data.getD []⟩ : Response) =
            ⟨datagram.1, i.number, i.request, payload⟩ := by
          rw [given, receiver]
          rfl
        exact .response (List.mem_append_right _ (List.mem_map.mpr ⟨datagram, sent, logged⟩))
          (number ▸ whole)
    · intro r among
      rcases List.mem_append.mp among with old | new
      · exact sound.responses r old
      · obtain ⟨_, _, rfl⟩ := List.mem_map.mp new
        exact asked

theorem Sound.step {s t : State} {e : Event} (sound : Sound s) (step : Step s e t) :
    Sound t := by
  have extends_ := step.extends_
  cases e with
  | construct c sock serverAddr =>
    cases step with
    | constructed _ _ _ fresh => exact sound.put (by rw [sound.unborn c fresh]; rfl)
  | call c data now accepted => exact sound.call step
  | reply c arrival =>
    cases step with
    | @timedOut _ client alive => exact sound.put (sound.counter c client alive)
    | passedOver => exact sound
    | @replied _ _ client _ _ alive =>
      have left : Sound (s.put c { client with waiting := false }) :=
        sound.put (sound.counter c client alive)
      exact ⟨left.counter, left.unborn,
        fun d among => extends_.carries (sound.carries d among), left.received, left.responses⟩
  | receiveRequest k => exact sound.receiveRequest step
  | sendResponse k data now accepted => exact sound.sendResponse step

theorem reachable_sound {s : State} (reach : machine.Reachable s) : Sound s := by
  refine reach.invariant Sound ?_ fun _ _ _ before _ taken => before.step (next_step taken)
  rintro _ ⟨sock, localAddr, rfl⟩
  exact Sound.init sock localAddr

/-- The reply that ends a receive loop answers the call of this loop: among numbers below
the wrap the residues tell the calls apart. -/
theorem Sound.reply {s : State} (sound : Sound s) {c : SockAddr} {client : Client}
    (alive : s.clients c = some client) (few : (s.called c).length < 2 ^ 32) {d : Datagram}
    (sent : d ∈ s.sent) (here : d.destination = c) {string : Bytes}
    (ends : client.node.reply d.bytes = some string) :
    Answered s ⟨c, (s.called c).length, string⟩ := by
  subst here
  cases sound.carries d sent with
  | request asked whole =>
    rw [UDPServiceClient.reply_packet whole, if_neg (by simp)] at ends
    contradiction
  | @response now request payload logged whole =>
    have asked : Topic.nth (s.called d.destination) d.number = some request :=
      sound.responses _ logged
    obtain ⟨positive, bound⟩ := Topic.nth_bound asked
    rw [UDPServiceClient.reply_packet whole, sound.counter _ client alive] at ends
    split at ends
    · rename_i matches_
      have residues : d.number % 2 ^ 32 = (s.called d.destination).length % 2 ^ 32 := by
        simpa [← UInt32.toNat_inj] using matches_.2
      rw [Nat.mod_eq_of_lt (Nat.lt_of_le_of_lt bound few), Nat.mod_eq_of_lt few] at residues
      obtain rfl := Option.some.inj ends
      rw [residues] at asked logged
      exact ⟨_, asked, logged⟩
    · contradiction

theorem Step.returned {s t : State} {e : Event} (step : Step s e t) :
    t.returned = s.returned ∨ ∃ c client d string, s.clients c = some client ∧ d ∈ s.sent ∧
      d.destination = c ∧ client.node.reply d.bytes = some string ∧
      t.returned = s.returned ++ [⟨c, (s.called c).length, string⟩] := by
  cases step with
  | constructed | refused | called | timedOut | passedOver | requested | ignored | responded =>
    exact .inl rfl
  | @replied c _ client d string alive sent here ends =>
    exact .inr ⟨c, client, d, string, alive, sent, here, ends, rfl⟩

/-- In every run, a string that a client with fewer than 2^32 calls was returned answers the
call that returned it. -/
theorem returned_answered {s : State} (reach : machine.Reachable s) {r : Returned}
    (among : r ∈ s.returned) (few : (s.called r.client).length < 2 ^ 32) : Answered s r := by
  refine reach.invariant_of (fun s => ∀ r ∈ s.returned, (s.called r.client).length < 2 ^ 32 →
    Answered s r) ?_ ?_ r among few
  · rintro _ ⟨sock, localAddr, rfl⟩
    nofun
  · intro s e t reach before _ taken r among few
    have step := next_step taken
    have extends_ := step.extends_
    have fewer := Nat.lt_of_le_of_lt (extends_.called r.client).length_le few
    refine extends_.answered ?_
    rcases step.returned with same | ⟨c, client, d, string, alive, sent, here, ends, added⟩
    · exact before r (same ▸ among) fewer
    · rw [added] at among
      rcases List.mem_append.mp among with old | new
      · exact before r old fewer
      · obtain rfl := List.mem_singleton.mp new
        exact (reachable_sound reach).reply alive fewer sent here ends

theorem returned_answered_late : ∃ (s : State) (r : Returned), r.number = 2 ∧ r.string = [6] ∧
    Answered s r := by
  obtain ⟨s, reach, facts⟩ := Machine.reachable_of_check machine (fun _ _ => True)
    ⟨3, ⟨1, 7000⟩, rfl⟩
    [.construct ⟨2, 5000⟩ 4 ⟨1, 7000⟩, .call ⟨2, 5000⟩ (some [1]) 0 true, .reply ⟨2, 5000⟩ none,
      .receiveRequest 0, .sendResponse 0 (some [5]) 0 true, .call ⟨2, 5000⟩ (some [2]) 0 true,
      .reply ⟨2, 5000⟩ (some 1), .receiveRequest 2, .sendResponse 1 (some [6]) 0 true,
      .reply ⟨2, 5000⟩ (some 3)]
    (fun s => decide (s.returned = [⟨⟨2, 5000⟩, 2, [6]⟩] ∧ (s.called ⟨2, 5000⟩).length = 2))
    (by decide)
  obtain ⟨returned, length⟩ := of_decide_eq_true facts
  exact ⟨s, ⟨⟨2, 5000⟩, 2, [6]⟩, rfl, rfl,
    returned_answered reach (by rw [returned]; exact List.mem_cons_self) (by rw [length]; decide)⟩

end ComIpc.Udp.Session
