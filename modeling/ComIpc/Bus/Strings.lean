import ComIpc.Bus.Payload

/-! Strings on a topic.

The overload of `publish` sends the terminator along and counts it, and the overload of
`receive` makes a string of all the bytes that were counted.
-/

set_option autoImplicit false

namespace ComIpc.Bus

open Semantics

section
variable {T K Id : Type}

/-- What `publish(const std::string&)` passes to `publishRaw`: `c_str()` of `size() + 1` bytes. -/
def stringData (message : Bytes) : Bytes := message ++ [0]

/-- A call of `publishRaw` that `publish(const std::string&)` made. -/
structure Publishes (call : PublishCall T) (message : Bytes) : Prop where
  type : call.type = .string
  data : call.data = stringData message

/-- `receive(std::string&)`, on the header and the payload that the raw receive copied out; `none`
is its return value false. -/
def Receipt.string (r : Receipt T K Id) : Option Bytes :=
  if r.header.type = .string then some (r.payload.take r.header.dataSize.toNat) else none

/-- The header of a receipt leads back to its call, and the payload is as long as the header says.
The bytes may have been written over in the meantime. -/
def Headed (calls : K → Option (PublishCall T)) (r : Receipt T K Id) : Prop :=
  r.payload.length = r.header.dataSize.toNat ∧
    ∀ k, r.source = some k → ∃ call, calls k = some call ∧ Describes r.header call

theorem Headed.kept {before after : K → Option (PublishCall T)} {r : Receipt T K Id}
    (headed : Headed before r) (keeps : Keeps before after) : Headed after r := by
  refine ⟨headed.1, fun k source => ?_⟩
  obtain ⟨call, found, describes⟩ := headed.2 k source
  obtain ⟨call', found', later⟩ := keeps k call found
  exact ⟨call', found', describes.later later⟩

theorem Sound.headed {s : State T K Id} (sound : Sound s) {t : T} {i : Id} {sub : Topic.Subscriber}
    (follows : Topic.Follows (s.topics t).published sub) :
    ∀ r ∈ s.copyOut t i sub.phase, Headed s.calls r := by
  intro r member
  obtain ⟨_, _, payload, _⟩ := mem_copyOut member
  refine ⟨payload ▸ ByteMemory.length_load _ _ _, fun k source => ?_⟩
  obtain ⟨call, found, _, describes⟩ := sound.copied follows member source
  exact ⟨call, found, describes⟩

variable [DecidableEq T] [DecidableEq K] [DecidableEq Id]

theorem reachable_headed {s : State T K Id} (reach : (machine T K Id).Reachable s) :
    ∀ r ∈ s.receipts, Headed s.calls r := by
  refine reach.invariant_of (fun s => ∀ r ∈ s.receipts, Headed s.calls r) ?_ ?_
  · rintro s rfl r member
    exact absurd member List.not_mem_nil
  · intro s e s' before headed _ taken r member
    have keeps := (next_calls taken).keeps
    have old : ∀ r ∈ s.receipts, Headed s'.calls r := fun r there => (headed r there).kept keeps
    rcases next_receipts taken member with there | ⟨t, i, sub, alive, new⟩
    · exact (headed r there).kept keeps
    · have follows := (reachable_consistent before t).follows i sub alive
      exact ((reachable_sound before).headed follows r new).kept keeps

theorem string_longer {s : State T K Id} (reach : (machine T K Id).Reachable s)
    {r : Receipt T K Id} (member : r ∈ s.receipts) {k : K} (source : r.source = some k)
    {call : PublishCall T} (known : s.calls k = some call) {message : Bytes}
    (publishes : Publishes call message) :
    ∃ received, r.string = some received ∧ received.length = message.length + 1 := by
  obtain ⟨length, named⟩ := reachable_headed reach r member
  obtain ⟨call', known', describes⟩ := named k source
  obtain rfl := Option.some.inj (known.symm.trans known')
  have type : r.header.type = .string := describes.type.trans publishes.type
  have size : r.header.dataSize.toNat = message.length + 1 := by
    rw [describes.size, publishes.data, stringData, List.length_append, List.length_singleton]
  refine ⟨r.payload.take r.header.dataSize.toNat, if_pos type, ?_⟩
  rw [List.length_take, length, Nat.min_self, size]

theorem string_intact {s : State T K Id} (reach : (machine T K Id).Reachable s)
    {r : Receipt T K Id} (member : r ∈ s.receipts) (intact : r.intact = true) {k : K}
    (source : r.source = some k) {call : PublishCall T} (known : s.calls k = some call)
    {message : Bytes} (publishes : Publishes call message) : r.string = some (message ++ [0]) := by
  obtain ⟨call', known', _, describes, payload⟩ :=
    (reachable_sound reach).receipts r member k source intact
  obtain rfl := Option.some.inj (known.symm.trans known')
  have type : r.header.type = .string := describes.type.trans publishes.type
  rw [Receipt.string, if_pos type, payload, describes.size, List.take_length, publishes.data,
    stringData]

def StringArrives (r : Receipt T K Id) (message : Bytes) : Prop :=
  ∀ received, r.string = some received → received = message

/-- No published string arrives as it was, whatever its length and its bytes. -/
theorem string_never_arrives {s : State T K Id} (reach : (machine T K Id).Reachable s)
    {r : Receipt T K Id} (member : r ∈ s.receipts) {k : K} (source : r.source = some k)
    {call : PublishCall T} (known : s.calls k = some call) {message : Bytes}
    (publishes : Publishes call message) : ¬ StringArrives r message := by
  obtain ⟨received, got, longer⟩ := string_longer reach member source known publishes
  intro arrives
  have same := congrArg List.length (arrives received got)
  omega

end

theorem received_a : ∃ (s : State Bool Nat Nat) (r : Receipt Bool Nat Nat)
    (call : PublishCall Bool), (machine Bool Nat Nat).Reachable s ∧ r ∈ s.receipts ∧
      r.source = some 0 ∧ s.calls 0 = some call ∧ Publishes call [97] := by
  obtain ⟨s, reach, done⟩ := Machine.reachable_of_check (machine Bool Nat Nat) (fun _ _ => True) rfl
    [.construct false 0, .allocate 0 false .string (stringData [97]), .copyIn 0, .enqueue 0 5,
      .receive false 0 (.raw (MessageHeader.bytes + maxMsgSize) 1000) false, .finish false 0]
    (fun s => decide (s.receipts.map Receipt.source = [some 0] ∧
      (s.calls 0).map (fun call => (call.type, call.data)) = some (.string, [97, 0])))
    (by decide +kernel)
  obtain ⟨sources, known⟩ := of_decide_eq_true done
  obtain ⟨r, only, source⟩ := List.map_eq_singleton_iff.mp sources
  obtain ⟨call, known, fields⟩ := Option.map_eq_some_iff.mp known
  obtain ⟨type, data⟩ := Prod.mk.inj fields
  exact ⟨s, r, call, reach, only ▸ List.mem_singleton_self r, source, known, type, data⟩

theorem string_never_arrives_a : ∃ r : Receipt Bool Nat Nat, ¬ StringArrives r [97] := by
  obtain ⟨s, r, call, reach, member, source, known, publishes⟩ := received_a
  exact ⟨r, string_never_arrives reach member source known publishes⟩

theorem terminator_received :
    ¬ ∀ s : State Bool Nat Nat, (machine Bool Nat Nat).Reachable s → ∀ r ∈ s.receipts,
      ∀ k call message, r.source = some k → s.calls k = some call → Publishes call message →
        StringArrives r message := by
  intro claim
  obtain ⟨s, r, call, reach, member, source, known, publishes⟩ := received_a
  obtain ⟨received, got, longer⟩ := string_longer reach member source known publishes
  have same := claim s reach r member 0 call [97] source known publishes received got
  rw [same] at longer
  exact absurd longer (by decide)

end ComIpc.Bus
