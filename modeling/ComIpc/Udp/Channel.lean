import ComIpc.Semantics.Machine
import ComIpc.Topic.Delivery
import ComIpc.Udp.Node

/-! Publishers that send to one subscriber over a network that loses, repeats, delays and
reorders datagrams.

Whatever was sent may arrive at any later moment, any number of times or never. An
instance of a publisher is never created a second time; one that is created after
another was destroyed is another instance. `published`, `accepted` and `returned` are
ghosts: the payloads that were given a number, the datagrams that were not dropped, and
the strings that `receive` returned, the empty ones left out.
-/

set_option autoImplicit false

namespace ComIpc.Udp

open Semantics

/-- A datagram on its way, with the publication it carries. -/
structure Sent (P : Type) where
  sender : P
  number : Nat
  bytes : Bytes
  deriving DecidableEq, Repr

structure Accepted (P : Type) where
  sender : P
  number : Nat
  deriving DecidableEq, Repr

namespace Channel

structure State (P : Type) where
  publishers : P → Option UDPPublisher
  subscriber : UDPSubscriber
  published : P → List Bytes
  sent : List (Sent P)
  accepted : List (Accepted P)
  returned : List Bytes

inductive Event (P : Type) where
  | construct (p : P) (sock : Int) (destAddr : SockAddr)
  | publish (p : P) (data : Option Bytes) (now : UInt64) (taken : Bool)
  /-- `recvfrom` fails, or a datagram that was sent arrives. -/
  | receive (arrival : Option Nat)
  deriving DecidableEq, Repr

section
variable {P : Type}

def State.arrive (s : State P) (d : Sent P) : State P :=
  let (subscriber, string) := s.subscriber.receive (some d.bytes)
  if string = [] then { s with subscriber := subscriber }
  else { s with
    subscriber := subscriber
    accepted := s.accepted ++ [⟨d.sender, d.number⟩]
    returned := s.returned ++ [string] }

variable [DecidableEq P]

def next (s : State P) : Event P → Option (State P)
  | .construct p sock destAddr => do
    guard (s.publishers p).isNone
    some { s with publishers := Function.update s.publishers p (some ⟨sock, destAddr, 0⟩) }
  | .publish p data now taken => do
    let node ← s.publishers p
    let (after, datagram, _) := node.publish data now taken
    let published := s.published p ++ (admitted node.sock data).toList
    some { s with
      publishers := Function.update s.publishers p (some after)
      published := Function.update s.published p published
      sent := s.sent ++ datagram.toList.map fun d => ⟨p, published.length, d.2⟩ }
  | .receive none => some { s with subscriber := (s.subscriber.receive none).1 }
  | .receive (some k) => do
    -- nothing arrives at a socket that could not be opened
    guard (0 ≤ s.subscriber.sock)
    let d ← s.sent[k]?
    some (s.arrive d)

def State.init (sock : Int) : State P := ⟨fun _ => none, ⟨sock, 0⟩, fun _ => [], [], [], []⟩

def machine (P : Type) [DecidableEq P] : Machine (State P) (Event P) where
  initial := fun s => ∃ sock, s = .init sock
  next := next

inductive Step (s : State P) : Event P → State P → Prop where
  | constructed (p : P) (sock : Int) (destAddr : SockAddr) : s.publishers p = none →
      Step s (.construct p sock destAddr)
        { s with publishers := Function.update s.publishers p (some ⟨sock, destAddr, 0⟩) }
  | published (p : P) (data : Option Bytes) (now : UInt64) (taken : Bool)
      {node : UDPPublisher} : s.publishers p = some node →
      Step s (.publish p data now taken) { s with
        publishers := Function.update s.publishers p (some (node.publish data now taken).1)
        published := Function.update s.published p
          (s.published p ++ (admitted node.sock data).toList)
        sent := s.sent ++ (node.publish data now taken).2.1.toList.map fun d =>
          ⟨p, (s.published p ++ (admitted node.sock data).toList).length, d.2⟩ }
  | silence : Step s (.receive none) s
  | arrived (k : Nat) {d : Sent P} : 0 ≤ s.subscriber.sock → d ∈ s.sent →
      Step s (.receive (some k)) (s.arrive d)

theorem next_step {s t : State P} {e : Event P} (taken : next s e = some t) : Step s e t := by
  cases e with
  | construct p sock destAddr =>
    simp only [next, Option.bind_eq_bind, Option.bind_eq_some_iff, guard_passed,
      Option.some.injEq, Option.isNone_iff_eq_none] at taken
    obtain ⟨_, fresh, rfl⟩ := taken
    exact .constructed p sock destAddr fresh
  | publish p data now accepted =>
    simp only [next, Option.bind_eq_bind, Option.bind_eq_some_iff, Option.some.injEq] at taken
    obtain ⟨node, alive, rfl⟩ := taken
    exact .published p data now accepted alive
  | receive arrival =>
    cases arrival with
    | none =>
      have same : (s.subscriber.receive none).1 = s.subscriber := by
        unfold UDPSubscriber.receive
        split <;> rfl
      rw [next, same, Option.some.injEq] at taken
      exact taken ▸ .silence
    | some k =>
      simp only [next, Option.bind_eq_bind, Option.bind_eq_some_iff, guard_passed,
        Option.some.injEq] at taken
      obtain ⟨_, opened, d, found, rfl⟩ := taken
      exact .arrived k opened (List.mem_of_getElem? found)

end

section
variable {P : Type}

structure Carries (published : P → List Bytes) (d : Sent P) : Prop where
  packet : ∃ payload now, Topic.nth (published d.sender) d.number = some payload ∧
    recvfrom d.bytes = packet ⟨UInt32.ofNat d.number, now, 0x00, 0x00⟩ payload

/-- The mark of a subscriber that has accepted these publications, the last one last. -/
def markOf (accepted : List (Accepted P)) : UInt32 :=
  (accepted.getLast?.map fun a => UInt32.ofNat a.number).getD 0

/-- A publisher's counter is the residue of how many publications it numbered. -/
structure Counts (node : Option UDPPublisher) (published : List Bytes) : Prop where
  counter : ∀ alive, node = some alive → alive.currentSeq = UInt32.ofNat published.length
  unborn : node = none → published = []
  nonempty : ∀ payload ∈ published, payload ≠ []

/-- Counters and mark are the residues of the numbers they stand for. -/
structure Numbered (s : State P) : Prop where
  counts : ∀ p, Counts (s.publishers p) (s.published p)
  carries : ∀ d ∈ s.sent, Carries s.published d
  mark : s.subscriber.lastValidSeq = markOf s.accepted
  returned : s.returned.map some =
    s.accepted.map fun a => Topic.nth (s.published a.sender) a.number

theorem Counts.publish {node : UDPPublisher} {published : List Bytes}
    (counts : Counts (some node) published) (data : Option Bytes) (now : UInt64) (taken : Bool) :
    Counts (some (node.publish data now taken).1)
      (published ++ (admitted node.sock data).toList) where
  counter := by
    intro alive same
    rw [← Option.some.inj same, UDPPublisher.publish_node]
    simp only [counts.counter node rfl, List.length_append, UInt32.ofNat_add]
  unborn := nofun
  nonempty := by
    intro payload among
    rcases List.mem_append.mp among with old | new
    · exact counts.nonempty payload old
    · exact admitted_nonempty (Option.mem_toList.mp new)

theorem Carries.append [DecidableEq P] {published : P → List Bytes} {d : Sent P}
    (carries : Carries published d) (p : P) (more : List Bytes) :
    Carries (Function.update published p (published p ++ more)) d := by
  obtain ⟨payload, now, found, whole⟩ := carries.packet
  exact ⟨payload, now, Topic.nth_grows found p more, whole⟩

theorem Numbered.receives {s : State P} (numbered : Numbered s)
    (opened : 0 ≤ s.subscriber.sock) {d : Sent P} (sent : d ∈ s.sent) : ∃ payload,
      Topic.nth (s.published d.sender) d.number = some payload ∧ payload ≠ [] ∧
      s.subscriber.receive (some d.bytes) =
        if s.subscriber.stale (UInt32.ofNat d.number) then (s.subscriber, [])
        else ({ s.subscriber with lastValidSeq := UInt32.ofNat d.number }, payload) := by
  obtain ⟨payload, now, found, whole⟩ := (numbered.carries d sent).packet
  refine ⟨payload, found, ?_, UDPSubscriber.receive_packet (Int.not_lt.mpr opened) whole⟩
  unfold Topic.nth at found
  split at found
  · contradiction
  · exact (numbered.counts d.sender).nonempty payload (List.mem_of_getElem? found)

theorem Numbered.arrive {s : State P} (numbered : Numbered s) (opened : 0 ≤ s.subscriber.sock)
    {d : Sent P} (sent : d ∈ s.sent) : ∃ payload,
      Topic.nth (s.published d.sender) d.number = some payload ∧
      s.arrive d =
        if s.subscriber.stale (UInt32.ofNat d.number) then s
        else { s with
          subscriber := { s.subscriber with lastValidSeq := UInt32.ofNat d.number }
          accepted := s.accepted ++ [⟨d.sender, d.number⟩]
          returned := s.returned ++ [payload] } := by
  obtain ⟨payload, found, nonempty, received⟩ := numbered.receives opened sent
  refine ⟨payload, found, ?_⟩
  rw [State.arrive, received]
  by_cases stale : s.subscriber.stale (UInt32.ofNat d.number) = true
  · simp only [if_pos stale, if_true]
  · simp only [if_neg stale, if_neg nonempty]

theorem State.arrive_published (s : State P) (d : Sent P) :
    (s.arrive d).published = s.published := by
  unfold State.arrive
  simp only
  split <;> rfl

theorem markOf_append (accepted : List (Accepted P)) (a : Accepted P) :
    markOf (accepted ++ [a]) = UInt32.ofNat a.number := by
  simp [markOf]

theorem Numbered.init (sock : Int) : Numbered (State.init sock : State P) where
  counts := fun _ => ⟨nofun, fun _ => rfl, nofun⟩
  carries := nofun
  mark := rfl
  returned := rfl

theorem Numbered.receive {s : State P} (numbered : Numbered s) (opened : 0 ≤ s.subscriber.sock)
    {d : Sent P} (sent : d ∈ s.sent) : Numbered (s.arrive d) := by
  obtain ⟨payload, found, becomes⟩ := numbered.arrive opened sent
  rw [becomes]
  split
  · exact numbered
  · constructor
    case counts => exact numbered.counts
    case carries => exact numbered.carries
    case mark => exact (markOf_append s.accepted ⟨d.sender, d.number⟩).symm
    case returned =>
      simp only [List.map_append, numbered.returned, List.map_cons, List.map_nil, found]

variable [DecidableEq P]

theorem Numbered.construct {s : State P} (numbered : Numbered s) {p : P}
    (fresh : s.publishers p = none) (sock : Int) (destAddr : SockAddr) :
    Numbered { s with
      publishers := Function.update s.publishers p (some ⟨sock, destAddr, 0⟩) } where
  counts := by
    have unborn := (numbered.counts p).unborn fresh
    refine (Function.forall_update_iff s.publishers fun q node =>
      Counts node (s.published q)).mpr ⟨⟨?_, nofun, (numbered.counts p).nonempty⟩,
        fun q _ => numbered.counts q⟩
    intro alive same
    rw [← Option.some.inj same, unborn]
    rfl
  carries := numbered.carries
  mark := numbered.mark
  returned := numbered.returned

theorem Numbered.publish {s : State P} (numbered : Numbered s) {p : P} {node : UDPPublisher}
    (alive : s.publishers p = some node) (data : Option Bytes) (now : UInt64) (taken : Bool) :
    Numbered { s with
      publishers := Function.update s.publishers p (some (node.publish data now taken).1)
      published := Function.update s.published p
        (s.published p ++ (admitted node.sock data).toList)
      sent := s.sent ++ (node.publish data now taken).2.1.toList.map fun d =>
        ⟨p, (s.published p ++ (admitted node.sock data).toList).length, d.2⟩ } := by
  have before : Counts (some node) (s.published p) := alive ▸ numbered.counts p
  have after := before.publish data now taken
  constructor
  case counts =>
    intro q
    by_cases self : q = p
    · subst self
      simpa only [Function.update_self] using after
    · simpa only [Function.update_of_ne self] using numbered.counts q
  case carries =>
    intro d among
    rcases List.mem_append.mp among with old | new
    · exact (numbered.carries d old).append p _
    · obtain ⟨datagram, out, rfl⟩ := List.mem_map.mp new
      obtain ⟨payload, passed, whole⟩ := UDPPublisher.publish_sent (Option.mem_toList.mp out)
      rw [before.counter node rfl] at whole
      have grown : s.published p ++ (admitted node.sock data).toList =
          s.published p ++ [payload] := by rw [passed]; rfl
      refine ⟨payload, now, ?_, ?_⟩
      · show Topic.nth (Function.update s.published p _ p) _ = some payload
        rw [Function.update_self, grown, Topic.nth_length, List.getLast?_concat]
      · show recvfrom datagram.2 = _
        rw [whole, grown, List.length_append, UInt32.ofNat_add]
        rfl
  case mark => exact numbered.mark
  case returned =>
    rw [numbered.returned]
    refine List.map_congr_left fun a among => ?_
    -- what was accepted has a number already
    have known : Topic.nth (s.published a.sender) a.number ∈ s.returned.map some :=
      numbered.returned ▸ List.mem_map_of_mem among
    obtain ⟨payload, _, found⟩ := List.mem_map.mp known
    exact found.symm.trans (Topic.nth_grows found.symm p _).symm

theorem Numbered.step {s t : State P} {e : Event P} (numbered : Numbered s)
    (step : Step s e t) : Numbered t := by
  cases step with
  | constructed p sock destAddr fresh => exact numbered.construct fresh sock destAddr
  | published p data now taken alive => exact numbered.publish alive data now taken
  | silence => exact numbered
  | arrived k opened among => exact numbered.receive opened among

theorem reachable_numbered {s : State P} (reach : (machine P).Reachable s) : Numbered s := by
  refine reach.invariant Numbered ?_ fun _ _ _ before _ taken => before.step (next_step taken)
  rintro _ ⟨sock, rfl⟩
  exact Numbered.init sock

theorem Step.numbers {s t : State P} {e : Event P} (step : Step s e t) (p : P) :
    s.published p <+: t.published p := by
  cases step with
  | constructed | silence => exact List.prefix_rfl
  | @arrived k d =>
    have same : (s.arrive d).published = s.published := s.arrive_published d
    exact same ▸ List.prefix_rfl
  | published q =>
    by_cases self : p = q
    · subst self
      simp only [Function.update_self]
      exact List.prefix_append _ _
    · simp only [Function.update_of_ne self]
      exact List.prefix_rfl

/-- The accepted publications change only when a datagram arrives that is not stale. -/
theorem Step.accepts {s t : State P} {e : Event P} (step : Step s e t) (numbered : Numbered s) :
    t.accepted = s.accepted ∨ ∃ d ∈ s.sent, ¬ s.subscriber.stale (UInt32.ofNat d.number) ∧
      t.accepted = s.accepted ++ [⟨d.sender, d.number⟩] := by
  cases step with
  | constructed | published | silence => exact .inl rfl
  | @arrived k d opened among =>
    obtain ⟨payload, _, becomes⟩ := numbered.arrive opened among
    rw [becomes]
    split
    · exact .inl rfl
    · rename_i fresh
      exact .inr ⟨d, among, fresh, rfl⟩

end

section
variable {P : Type}

/-- A datagram on its way would arrive now and be dropped. -/
structure Drops (s : State P) (d : Sent P) : Prop where
  sent : d ∈ s.sent
  opened : 0 ≤ s.subscriber.sock
  empty : (s.subscriber.receive (some d.bytes)).2 = []

/-- The test of the subscriber on the numbers: it is the residue of the publication accepted
last that decides. -/
theorem Numbered.stale_iff {s : State P} (numbered : Numbered s) (number : Nat) :
    s.subscriber.stale (UInt32.ofNat number) = true ↔ ∃ last ∈ s.accepted.getLast?,
      last.number % 2 ^ 32 ≠ 0 ∧ number % 2 ^ 32 ≤ last.number % 2 ^ 32 := by
  rw [UDPSubscriber.stale, decide_eq_true_iff, numbered.mark, markOf]
  cases s.accepted.getLast? with
  | none => simp
  | some last =>
    simp [← UInt32.toNat_inj, UInt32.le_iff_toNat_le]

theorem Numbered.drops_iff {s : State P} (numbered : Numbered s)
    (opened : 0 ≤ s.subscriber.sock) {d : Sent P} (sent : d ∈ s.sent) :
    Drops s d ↔ s.subscriber.stale (UInt32.ofNat d.number) = true := by
  obtain ⟨payload, _, nonempty, received⟩ := numbered.receives opened sent
  constructor
  · intro dropped
    by_contra fresh
    have empty := dropped.empty
    rw [received, if_neg fresh] at empty
    exact nonempty empty
  · intro stale
    exact ⟨sent, opened, by rw [received, if_pos stale]⟩

end

end Channel

end ComIpc.Udp
