import ComIpc.Udp.Deadline

/-! Stray datagrams at the socket of a client.

The calls of a client come one after the other, and what a call has not read is there for the
next one. A datagram of another type is thrown away, but the timeout of the socket begins
anew with the next receive; so a reply that is read after a stray one may be one that the call
would not have waited for.
-/

set_option autoImplicit false

namespace ComIpc.Udp

def ofKind (kind : UInt8) (datagram : Bytes) : Bool :=
  let buffer := recvfrom datagram
  decide (QoSHeader.bytes ≤ buffer.length ∧ (QoSHeader.ofImage buffer).msgType = kind)

def Arrival.isReply (a : Arrival) : Bool := ofKind 0x02 a.bytes

/-- A call of a client: its arguments, its clock, the fate of its request, and the moment before
which it does not begin. -/
structure Asking where
  data : Option Bytes
  clock : UInt64
  accepted : Bool
  -- a negative timeout is refused by the socket or is over at once
  timeoutMs : Nat
  start : Nat
  deriving DecidableEq, Repr

namespace UDPServiceClient

/-- The receive loop from a moment on: what it returns, when, and what is left at the socket. -/
def listen (node : UDPServiceClient) (timeout now : Nat) :
    List Arrival → Option (Bytes × Nat × List Arrival)
  | [] => if timeout = 0 then none else some ([], now + timeout, [])
  | a :: later =>
    if timeout ≠ 0 ∧ now + timeout < a.time then some ([], now + timeout, a :: later)
    else match node.reply a.bytes with
      | some payload => some (payload, max now a.time, later)
      | none => node.listen timeout (max now a.time) later

/-- What the calls return, and the client after them; a call that does not end is the last. -/
def callsAt (node : UDPServiceClient) (now : Nat) :
    List Asking → List Arrival → UDPServiceClient × List Bytes
  | [], _ => (node, [])
  | asking :: later, arrivals =>
    let now := max now asking.start
    match node.request asking.data asking.clock asking.accepted with
    | none =>
      let (final, strings) := node.callsAt now later arrivals
      (final, [] :: strings)
    | some (node, _) =>
      match node.listen (timeval asking.timeoutMs).micros now arrivals with
      | none => (node, [])
      | some (string, now, arrivals) =>
        let (final, strings) := node.callsAt now later arrivals
        (final, string :: strings)

/-- It is the receive loop of one call. -/
theorem listen_awaitUntil (node : UDPServiceClient) (timeout now : Nat) (arrivals : List Arrival) :
    (node.listen timeout now arrivals).map (fun ended => (ended.1, ended.2.1)) =
      (node.awaitUntil timeout now arrivals).map fun ended => (ended.returned, ended.time) := by
  induction arrivals generalizing now with
  | nil =>
    rw [listen, awaitUntil]
    split <;> rfl
  | cons a later ih =>
    rw [listen, awaitUntil]
    split
    · rfl
    · cases node.reply a.bytes with
      | some payload => rfl
      | none => exact ih (max now a.time)

theorem reply_other {node : UDPServiceClient} {datagram : Bytes}
    (other : ofKind 0x02 datagram = false) : node.reply datagram = none := by
  have other := not_and.mp (of_decide_eq_false other)
  simp only [reply]
  by_cases complete : QoSHeader.bytes ≤ (recvfrom datagram).length
  · simp [complete, other complete]
  · simp [complete]

theorem reply_own {node : UDPServiceClient} {datagram : Bytes}
    (own : ofKind 0x02 datagram = true) : node.reply datagram =
      if (QoSHeader.ofImage (recvfrom datagram)).seqId = node.currentRequestId then
        some ((recvfrom datagram).drop QoSHeader.bytes)
      else none := by
  obtain ⟨complete, type⟩ := of_decide_eq_true own
  simp only [reply, if_pos complete, type, true_and]

/-! ### Replies that come before all strays -/

theorem listen_strays (node : UDPServiceClient) (timeout now : Nat) {arrivals : List Arrival}
    (strays : ∀ a ∈ arrivals, a.isReply = false) :
    (timeout = 0 ∧ node.listen timeout now arrivals = none) ∨
    (timeout ≠ 0 ∧ ∃ time left, node.listen timeout now arrivals = some ([], time, left) ∧
      ∀ a ∈ left, a.isReply = false) := by
  induction arrivals generalizing now with
  | nil =>
    by_cases unbounded : timeout = 0
    · exact .inl ⟨unbounded, if_pos unbounded⟩
    · exact .inr ⟨unbounded, _, _, if_neg unbounded, nofun⟩
  | cons a later ih =>
    rw [listen]
    split
    · rename_i late
      exact .inr ⟨late.1, _, _, rfl, strays⟩
    · rw [reply_other (strays a List.mem_cons_self)]
      exact ih (max now a.time) fun b member => strays b (List.mem_cons_of_mem _ member)

theorem callsAt_strays (node : UDPServiceClient) (now now' : Nat) (askings : List Asking)
    {arrivals arrivals' : List Arrival} (strays : ∀ a ∈ arrivals, a.isReply = false)
    (strays' : ∀ a ∈ arrivals', a.isReply = false) :
    node.callsAt now askings arrivals = node.callsAt now' askings arrivals' := by
  induction askings generalizing node now now' arrivals arrivals' with
  | nil => rfl
  | cons asking later ih =>
    rw [callsAt, callsAt]
    cases node.request asking.data asking.clock asking.accepted with
    | none => simp only [ih node (max now asking.start) (max now' asking.start) strays strays']
    | some sent =>
      obtain ⟨node, out⟩ := sent
      rcases node.listen_strays (timeval asking.timeoutMs).micros (max now asking.start) strays with
        ⟨unbounded, waits⟩ | ⟨bounded, time, left, ends, rest⟩
      · obtain ⟨_, waits'⟩ | ⟨bounded, _⟩ :=
          node.listen_strays (timeval asking.timeoutMs).micros (max now' asking.start) strays'
        · simp only [waits, waits']
        · exact absurd unbounded bounded
      · obtain ⟨unbounded, _⟩ | ⟨_, time', left', ends', rest'⟩ :=
          node.listen_strays (timeval asking.timeoutMs).micros (max now' asking.start) strays'
        · exact absurd unbounded bounded
        · simp only [ends, ends', ih node time time' rest rest']

/-- No reply behind a datagram of another type. -/
def RepliesFirst (arrivals : List Arrival) : Prop :=
  arrivals.Pairwise fun earlier later => later.isReply = true → earlier.isReply = true

theorem RepliesFirst.strays {a : Arrival} {later : List Arrival}
    (first : RepliesFirst (a :: later)) (other : a.isReply = false) :
    ∀ b ∈ a :: later, b.isReply = false := by
  intro b member
  rcases List.mem_cons.mp member with rfl | member
  · exact other
  · rw [Bool.eq_false_iff]
    intro own
    have own := (List.pairwise_cons.mp first).1 b member own
    rw [other] at own
    contradiction

theorem filter_strays {arrivals : List Arrival} (strays : ∀ a ∈ arrivals, a.isReply = false) :
    arrivals.filter Arrival.isReply = [] := by
  apply List.filter_eq_nil_iff.mpr
  exact fun a member own => Bool.false_ne_true ((strays a member).symm.trans own)

theorem RepliesFirst.listen {arrivals : List Arrival} (first : RepliesFirst arrivals)
    (node : UDPServiceClient) (timeout now : Nat) :
    (∃ string time left, node.listen timeout now arrivals = some (string, time, left) ∧
      node.listen timeout now (arrivals.filter Arrival.isReply) =
        some (string, time, left.filter Arrival.isReply) ∧ RepliesFirst left) ∨
    (timeout = 0 ∧ node.listen timeout now arrivals = none ∧
      node.listen timeout now (arrivals.filter Arrival.isReply) = none) ∨
    ∃ time left time', node.listen timeout now arrivals = some ([], time, left) ∧
      node.listen timeout now (arrivals.filter Arrival.isReply) = some ([], time', []) ∧
      ∀ a ∈ left, a.isReply = false := by
  induction arrivals generalizing now with
  | nil =>
    by_cases unbounded : timeout = 0
    · exact .inr (.inl ⟨unbounded, if_pos unbounded, if_pos unbounded⟩)
    · exact .inr (.inr ⟨_, _, _, if_neg unbounded, if_neg unbounded, nofun⟩)
  | cons a later ih =>
    by_cases own : a.isReply = true
    · rw [List.filter_cons_of_pos own]
      simp only [UDPServiceClient.listen]
      by_cases late : timeout ≠ 0 ∧ now + timeout < a.time
      · simp only [if_pos late]
        exact .inl ⟨_, _, _, rfl, by rw [List.filter_cons_of_pos own], first⟩
      · simp only [if_neg late]
        cases node.reply a.bytes with
        | some payload => exact .inl ⟨_, _, _, rfl, rfl, (List.pairwise_cons.mp first).2⟩
        | none => exact ih (List.pairwise_cons.mp first).2 _
    · have strays := first.strays (Bool.eq_false_iff.mpr own)
      rw [filter_strays strays]
      rcases node.listen_strays timeout now strays with ⟨unbounded, waits⟩ | ⟨bounded, ends⟩
      · exact .inr (.inl ⟨unbounded, waits, if_pos unbounded⟩)
      · obtain ⟨time, left, ends, rest⟩ := ends
        exact .inr (.inr ⟨time, left, now + timeout, ends, if_neg bounded, rest⟩)

/-- Strays behind all replies make no difference to any sequence of calls. -/
theorem RepliesFirst.callsAt {arrivals : List Arrival} (first : RepliesFirst arrivals)
    (node : UDPServiceClient) (now : Nat) (askings : List Asking) :
    node.callsAt now askings arrivals =
      node.callsAt now askings (arrivals.filter Arrival.isReply) := by
  induction askings generalizing node now arrivals with
  | nil => rfl
  | cons asking later ih =>
    have nothing : ∀ a ∈ ([] : List Arrival), a.isReply = false :=
      fun _ member => absurd member List.not_mem_nil
    rw [UDPServiceClient.callsAt, UDPServiceClient.callsAt]
    cases node.request asking.data asking.clock asking.accepted with
    | none => simp only [ih first]
    | some sent =>
      obtain ⟨node, out⟩ := sent
      simp only
      rcases first.listen node (timeval asking.timeoutMs).micros (max now asking.start) with
        ⟨string, time, left, ends, same, rest⟩ | ⟨_, waits, same⟩ |
        ⟨time, left, time', ends, same, rest⟩
      · simp only [ends, same, ih rest]
      · simp only [waits, same]
      · simp only [ends, same, node.callsAt_strays time time' later rest nothing]

/-! ### A reply behind a stray -/

theorem listen_flush (node : UDPServiceClient) {timeout now : Nat} (bounded : timeout ≠ 0)
    {early tail : List Arrival} (there : ∀ a ∈ early, a.time ≤ now)
    (quiet : ∀ a ∈ tail.head?, now + timeout < a.time) :
    ∃ string time left,
      node.listen timeout now (early ++ tail) = some (string, time, left ++ tail) ∧
      now ≤ time ∧ time ≤ now + timeout ∧ left.length ≤ early.length - 1 ∧
      ∀ a ∈ left, a.time ≤ now := by
  induction early with
  | nil =>
    refine ⟨[], now + timeout, [], ?_, Nat.le_add_right _ _, Nat.le_refl _, Nat.le_refl _, nofun⟩
    cases tail with
    | nil => exact if_neg bounded
    | cons a later => exact if_pos ⟨bounded, quiet a rfl⟩
  | cons a early ih =>
    have here := there a List.mem_cons_self
    have others : ∀ b ∈ early, b.time ≤ now :=
      fun b member => there b (List.mem_cons_of_mem _ member)
    have same : max now a.time = now := Nat.max_eq_left here
    rw [List.cons_append, listen, if_neg (by omega), same]
    cases node.reply a.bytes with
    | some payload =>
      exact ⟨payload, now, early, rfl, Nat.le_refl _, Nat.le_add_right _ _, Nat.le_refl _, others⟩
    | none =>
      obtain ⟨string, time, left, ends, after, before, fewer, rest⟩ := ih others
      refine ⟨string, time, left, ends, after, before, ?_, rest⟩
      exact Nat.le_trans fewer (Nat.sub_le _ _)

def byteAsking (timeoutMs start : Nat) : Asking := ⟨some [0], 0, true, timeoutMs, start⟩

def asked (node : UDPServiceClient) (count : Nat) : UDPServiceClient :=
  { node with currentRequestId := node.currentRequestId + UInt32.ofNat count }

theorem asked_asked (node : UDPServiceClient) (count more : Nat) :
    (node.asked count).asked more = node.asked (count + more) := by
  simp only [asked, UInt32.ofNat_add, UInt32.add_assoc]

theorem callsAt_byte {node : UDPServiceClient} (opened : 0 ≤ node.sock)
    (now timeoutMs start : Nat) (later : List Asking) (arrivals : List Arrival) :
    node.callsAt now (byteAsking timeoutMs start :: later) arrivals =
      match (node.asked 1).listen (timeval timeoutMs).micros (max now start) arrivals with
      | none => (node.asked 1, [])
      | some (string, now, arrivals) =>
        let (final, strings) := (node.asked 1).callsAt now later arrivals
        (final, string :: strings) := by
  simp only [callsAt, byteAsking, request, admitted, Int.not_lt.mpr opened]
  rfl

theorem millisecond : (timeval (1 : Nat)).micros = 1000 := by decide

/-- As many calls of a millisecond as datagrams read all that is there, whatever they take for
replies. -/
theorem callsAt_flush (count : Nat) (node : UDPServiceClient) (opened : 0 ≤ node.sock) {now : Nat}
    {early tail : List Arrival} (enough : early.length ≤ count)
    (there : ∀ a ∈ early, a.time ≤ now) (quiet : ∀ a ∈ tail.head?, now + count * 1000 < a.time) :
    ∃ (strings : List Bytes) (time : Nat), strings.length = count ∧ time ≤ now + count * 1000 ∧
      ∀ askings, node.callsAt now (List.replicate count (byteAsking 1 0) ++ askings)
          (early ++ tail) =
        let (final, more) := (node.asked count).callsAt time askings tail
        (final, strings ++ more) := by
  induction count generalizing node now early with
  | zero =>
    obtain rfl := List.length_eq_zero_iff.mp (Nat.le_zero.mp enough)
    exact ⟨[], now, rfl, Nat.le_refl _, fun askings => by simp [asked]⟩
  | succ count ih =>
    have first : ∀ a ∈ tail.head?, now + 1000 < a.time := by
      intro a member
      have := quiet a member
      omega
    obtain ⟨string, time, left, ends, after, before, fewer, rest⟩ :=
      (node.asked 1).listen_flush (show 1000 ≠ 0 by decide) there first
    have later : ∀ a ∈ tail.head?, time + count * 1000 < a.time := by
      intro a member
      have := quiet a member
      omega
    obtain ⟨strings, final, length, bound, same⟩ := ih (node.asked 1) opened
      (show left.length ≤ count by omega) (fun a member => Nat.le_trans (rest a member) after) later
    refine ⟨string :: strings, final, by rw [List.length_cons, length], by omega, fun askings => ?_⟩
    rw [List.replicate_succ, List.cons_append, callsAt_byte opened,
      Nat.max_eq_left (Nat.zero_le now), millisecond, ends]
    simp only [same, asked_asked, Nat.add_comm 1 count, List.cons_append]

/-- A call that is not answered in time, and one without a timeout that is. -/
def twoCalls (start : Nat) : List Asking := [byteAsking 1 start, byteAsking 0 start]

section
variable {node : UDPServiceClient} {time start : Nat} {own : Bytes}

theorem twoCalls_disturbed (opened : 0 ≤ node.sock) (before : time ≤ start) {other : Bytes}
    (stray : ofKind 0x02 other = false) (reply : ofKind 0x02 own = true)
    (number : (QoSHeader.ofImage (recvfrom own)).seqId = (node.asked 2).currentRequestId) :
    (node.callsAt time (twoCalls start)
      [⟨start + 500, other⟩, ⟨start + 1500, own⟩]).2.length = 1 := by
  have wrong : (node.asked 2).currentRequestId ≠ (node.asked 1).currentRequestId := by
    intro same
    exact absurd ((UInt32.add_right_inj _).mp same) (by decide)
  have unanswered : (node.asked 1).reply own = none := by
    rw [reply_own reply, number, if_neg wrong]
  have behind : (node.asked 1).listen 1000 (start + 500) [⟨start + 1500, own⟩] =
      some ([], start + 2500, []) := by
    have inTime : ¬ (1000 ≠ 0 ∧ start + 500 + 1000 < start + 1500) := by omega
    have moment : max (start + 500) (start + 1500) = start + 1500 := Nat.max_eq_right (by omega)
    simp only [listen, if_neg inTime, unanswered, moment]
    rfl
  have first : (node.asked 1).listen 1000 start
      [⟨start + 500, other⟩, ⟨start + 1500, own⟩] = some ([], start + 2500, []) := by
    have inTime : ¬ (1000 ≠ 0 ∧ start + 1000 < start + 500) := by omega
    have moment : max start (start + 500) = start + 500 := Nat.max_eq_right (by omega)
    rw [listen]
    simp only [if_neg inTime, reply_other stray, moment, behind]
  rw [twoCalls, callsAt_byte opened, Nat.max_eq_right before, millisecond, first]
  simp only
  rw [callsAt_byte (show 0 ≤ (node.asked 1).sock from opened)]
  rfl

theorem twoCalls_undisturbed (opened : 0 ≤ node.sock) (before : time ≤ start)
    (reply : ofKind 0x02 own = true)
    (number : (QoSHeader.ofImage (recvfrom own)).seqId = (node.asked 2).currentRequestId) :
    (node.callsAt time (twoCalls start) [⟨start + 1500, own⟩]).2.length = 2 := by
  have first : (node.asked 1).listen 1000 start [⟨start + 1500, own⟩] =
      some ([], start + 1000, [⟨start + 1500, own⟩]) := by
    have late : 1000 ≠ 0 ∧ start + 1000 < start + 1500 := by omega
    simp only [listen, if_pos late]
  have answered : ((node.asked 1).asked 1).reply own =
      some ((recvfrom own).drop QoSHeader.bytes) := by
    rw [reply_own reply, asked_asked, if_pos number]
  have second (now : Nat) : ∃ moment, ((node.asked 1).asked 1).listen 0 now
      [⟨start + 1500, own⟩] = some ((recvfrom own).drop QoSHeader.bytes, moment, []) := by
    simp only [listen, answered]
    exact ⟨_, rfl⟩
  rw [twoCalls, callsAt_byte opened, Nat.max_eq_right before, millisecond, first]
  simp only
  obtain ⟨moment, second⟩ := second (max (start + 1000) start)
  rw [callsAt_byte (show 0 ≤ (node.asked 1).sock from opened),
    show (timeval (0 : Nat)).micros = 0 from rfl, second]
  rfl

end

/-- A stray datagram before a reply, whatever came before: at some times of arrival some calls
tell whether it was there. -/
theorem stray_matters (early : List Bytes) {other own : Bytes}
    (stray : ofKind 0x02 other = false) (reply : ofKind 0x02 own = true) :
    ∃ arrivals : List Arrival, (arrivals.Pairwise fun a b => a.time ≤ b.time) ∧
      arrivals.map Arrival.bytes = early ++ [other, own] ∧
      ∃ (node : UDPServiceClient) (askings : List Asking), node.callsAt 0 askings arrivals ≠
        node.callsAt 0 askings (arrivals.filter Arrival.isReply) := by
  let start := early.length * 1000
  let there : List Arrival := early.map fun bytes => ⟨0, bytes⟩
  let tail : List Arrival := [⟨start + 500, other⟩, ⟨start + 1500, own⟩]
  let askings := List.replicate early.length (byteAsking 1 0) ++ twoCalls start
  -- the number that the reply has is given to the last call
  let node : UDPServiceClient := ⟨0, ⟨0, 0⟩,
    (QoSHeader.ofImage (recvfrom own)).seqId - UInt32.ofNat 2 - UInt32.ofNat early.length⟩
  have opened : 0 ≤ node.sock := Int.le_refl 0
  have number : (QoSHeader.ofImage (recvfrom own)).seqId =
      ((node.asked early.length).asked 2).currentRequestId := by
    simp only [asked, node, UInt32.sub_add_cancel]
  have now : ∀ a ∈ there, a.time ≤ 0 := by
    intro a member
    obtain ⟨bytes, _, rfl⟩ := List.mem_map.mp member
    exact Nat.le_refl 0
  have own_ : tail.filter Arrival.isReply = [⟨start + 1500, own⟩] := by
    simp [tail, Arrival.isReply, stray, reply]
  refine ⟨there ++ tail, ?_, by simp [there, tail, Function.comp_def], node, askings,
    fun same => ?_⟩
  · refine List.pairwise_append.mpr ⟨?_, by simp [tail], fun a member b _ => ?_⟩
    · exact List.pairwise_of_forall_mem_list fun a member b _ =>
        Nat.le_trans (now a member) (Nat.zero_le _)
    · exact Nat.le_trans (now a member) (Nat.zero_le _)
  · obtain ⟨strings, time, length, bound, disturbed⟩ :=
      callsAt_flush early.length node opened (show there.length ≤ early.length by simp [there]) now
        (show ∀ a ∈ tail.head?, 0 + early.length * 1000 < a.time by simp [tail, start])
    obtain ⟨strings', time', length', bound', undisturbed⟩ :=
      callsAt_flush early.length node opened
        (show (there.filter Arrival.isReply).length ≤ early.length from
          Nat.le_trans (List.length_filter_le _ _) (by simp [there]))
        (fun a member => now a (List.mem_filter.mp member).1)
        (show ∀ a ∈ [Arrival.mk (start + 1500) own].head?, 0 + early.length * 1000 < a.time by
          simp [start])
    rw [List.filter_append, own_] at same
    have parts := congrArg Prod.snd same
    simp only [askings, disturbed, undisturbed] at parts
    have ends := (List.append_inj parts (length.trans length'.symm)).2
    have asks : 0 ≤ (node.asked early.length).sock := opened
    have one := twoCalls_disturbed asks (show time ≤ start by omega) stray reply number
    have two := twoCalls_undisturbed asks (show time' ≤ start by omega) reply number
    have lengths : 1 = 2 := one.symm.trans ((congrArg List.length ends).trans two)
    omega

end UDPServiceClient

end ComIpc.Udp
