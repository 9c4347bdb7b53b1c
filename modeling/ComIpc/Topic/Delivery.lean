import ComIpc.Topic.Change
import Mathlib.Data.List.Pairwise

/-! What subscribers of one topic receive.

A receive compares two 32-bit counters that wrap. The invariant relates both to
the unbounded number of publications: the topic's counter is the residue of how
many there are, a subscriber's cursor the residue of the last one it saw. Equal
residues never pass the loop test, so a header that is taken belongs to a
publication later than the last one seen, however long the run is.
-/

set_option autoImplicit false

namespace ComIpc.Topic

open Semantics

/-- The ring holds the newest publication and the counter counts publications. -/
structure Tracks (shm : TopicShm) (published : List MessageHeader) : Prop where
  seq : shm.seq = UInt32.ofNat published.length
  newest : ∀ header, published.getLast? = some header → shm.newest = header
  numbered : ∀ (n : Nat) header, published[n]? = some header →
    header.seq = (UInt32.ofNat (n + 1)).toInt32

section
variable {α : Type}

/-- The publication with a given number, counting from one. -/
def nth (published : List α) (publication : Nat) : Option α :=
  if publication = 0 then none else published[publication - 1]?

theorem nth_append {published : List α} {publication : Nat} {header : α} (more : List α)
    (found : nth published publication = some header) :
    nth (published ++ more) publication = some header := by
  unfold nth at *
  split at found
  · contradiction
  · rename_i counted
    rw [if_neg counted, List.getElem?_append_left (List.getElem?_eq_some_iff.mp found).1]
    exact found

theorem nth_grows {P : Type} [DecidableEq P] {published : P → List α} {q : P} {publication : Nat}
    {header : α} (found : nth (published q) publication = some header) (p : P) (more : List α) :
    nth (Function.update published p (published p ++ more) q) publication = some header := by
  by_cases self : q = p
  · subst self
    rw [Function.update_self]
    exact nth_append more found
  · rwa [Function.update_of_ne self]

theorem nth_bound {published : List α} {publication : Nat} {header : α}
    (found : nth published publication = some header) :
    0 < publication ∧ publication ≤ published.length := by
  unfold nth at found
  split at found
  · contradiction
  · have := (List.getElem?_eq_some_iff.mp found).1
    omega

theorem nth_mem {published : List α} {publication : Nat} {header : α}
    (found : nth published publication = some header) : header ∈ published := by
  unfold nth at found
  split at found
  · contradiction
  · exact List.mem_of_getElem? found

theorem nth_length (published : List α) :
    nth published published.length = published.getLast? := by
  unfold nth
  split
  · rename_i none
    rw [List.length_eq_zero_iff.mp none, List.getLast?_nil]
  · exact List.getLast?_eq_getElem?.symm

end

theorem Tracks.init : Tracks .init [] := by
  constructor <;> simp [TopicShm.init]

theorem Tracks.same {before after : TopicShm} {published : List MessageHeader}
    (tracks : Tracks before published) (same : SameRing before after) :
    Tracks after published :=
  ⟨same.seq.trans tracks.seq, fun header last => same.newest.trans (tracks.newest header last),
    tracks.numbered⟩

theorem Tracks.publish {before after : TopicShm} {published : List MessageHeader}
    {p : Publication} (tracks : Tracks before published) (seq : after.seq = before.seq + 1)
    (newest : after.newest = p.header (before.seq + 1)) :
    Tracks after (published ++ [p.header (before.seq + 1)]) where
  seq := by simp [seq, tracks.seq]
  newest := by simp [newest]
  numbered := by
    intro n header found
    by_cases old : n < published.length
    · rw [List.getElem?_append_left old] at found
      exact tracks.numbered n header found
    · have bound := (List.getElem?_eq_some_iff.mp found).1
      have last : n = published.length := by simp at bound; omega
      subst last
      simp only [List.getElem?_concat_length, Option.some.injEq] at found
      simp [← found, Publication.header, tracks.seq]

theorem Tracks.numbered_nth {shm : TopicShm} {published : List MessageHeader}
    {publication : Nat} {header : MessageHeader} (tracks : Tracks shm published)
    (found : nth published publication = some header) :
    header.seq.toUInt32 = UInt32.ofNat publication := by
  have bound := (nth_bound found).1
  unfold nth at found
  rw [if_neg (by omega)] at found
  rw [tracks.numbered _ header found, UInt32.toUInt32_toInt32,
    Nat.sub_add_cancel bound]

/-- One more delivery, of a publication later than all before. -/
theorem delivered_append {published : List MessageHeader} {deliveries : List Delivery}
    (exact_ : ∀ d ∈ deliveries, ∃ header, nth published d.publication = some header ∧
      d.returned = d.call.view header)
    (ordered : (deliveries.map Delivery.publication).Pairwise (· < ·)) (last : Delivery)
    {header : MessageHeader} (found : nth published last.publication = some header)
    (returned : last.returned = last.call.view header)
    (later : ∀ d ∈ deliveries, d.publication < last.publication) :
    (∀ d ∈ deliveries ++ [last], ∃ header, nth published d.publication = some header ∧
      d.returned = d.call.view header) ∧
    ((deliveries ++ [last]).map Delivery.publication).Pairwise (· < ·) := by
  constructor
  · intro d member
    rcases List.mem_append.mp member with old | new
    · exact exact_ d old
    · obtain rfl := List.mem_singleton.mp new
      exact ⟨header, found, returned⟩
  · rw [List.map_append, List.pairwise_append]
    refine ⟨ordered, by simp, ?_⟩
    intro earlier old newest new
    obtain ⟨d, member, rfl⟩ := List.mem_map.mp old
    obtain rfl := List.mem_singleton.mp new
    exact later d member

/-- A subscriber's cursor and deliveries, related to the publications so far. -/
structure Follows (published : List MessageHeader) (sub : Subscriber) : Prop where
  cursor : sub.lastSeq = UInt32.ofNat sub.seen
  joined_le : sub.joined ≤ sub.seen
  seen_le : sub.seen ≤ published.length
  exact : ∀ d ∈ sub.deliveries, ∃ header, nth published d.publication = some header ∧
    d.returned = d.call.view header
  fresh : ∀ d ∈ sub.deliveries, sub.joined < d.publication ∧ d.publication ≤ sub.seen
  ordered : (sub.deliveries.map Delivery.publication).Pairwise (· < ·)
  holding : ∀ call header publication, sub.phase = .holding call header publication →
    sub.seen < publication ∧ nth published publication = some header

theorem Follows.append {published : List MessageHeader} {sub : Subscriber}
    (follows : Follows published sub) (more : List MessageHeader) :
    Follows (published ++ more) sub where
  cursor := follows.cursor
  joined_le := follows.joined_le
  seen_le := by
    have := follows.seen_le
    simp only [List.length_append]
    omega
  exact := by
    intro d member
    obtain ⟨header, found, returned⟩ := follows.exact d member
    exact ⟨header, nth_append more found, returned⟩
  fresh := follows.fresh
  ordered := follows.ordered
  holding := by
    intro call header publication held
    obtain ⟨later, found⟩ := follows.holding call header publication held
    exact ⟨later, nth_append more found⟩

theorem Follows.joins {shm : TopicShm} {published : List MessageHeader}
    (tracks : Tracks shm published) :
    Follows published ⟨shm.seq, .idle, published.length, published.length, []⟩ := by
  constructor <;> simp [tracks.seq]

/-- The loop test passes only for a later publication. -/
theorem later_of_passed {shm : TopicShm} {published : List MessageHeader} {sub : Subscriber}
    (tracks : Tracks shm published) (follows : Follows published sub)
    (passed : sub.lastSeq < shm.seq) :
    sub.seen < published.length ∧ nth published published.length = some shm.newest := by
  -- a subscriber that has caught up has the same residue, which the strict test rejects
  have later : sub.seen < published.length := by
    rcases Nat.lt_or_eq_of_le follows.seen_le with later | caughtUp
    · exact later
    · rw [follows.cursor, tracks.seq, caughtUp] at passed
      exact absurd passed (UInt32.lt_irrefl _)
  refine ⟨later, ?_⟩
  rw [nth_length]
  cases last : published.getLast? with
  | none =>
    rw [List.getLast?_eq_none_iff] at last
    simp [last] at later
  | some header => rw [tracks.newest header last]

theorem Follows.move {Id : Type} {s : State Id} {sub sub' : Subscriber}
    (tracks : Tracks s.shm s.published) (follows : Follows s.published sub)
    (move : Move s sub sub') : Follows s.published sub' := by
  cases move with
  | failed | blocked => exact { follows with holding := by simp }
  | taken call passed =>
    obtain ⟨later, found⟩ := later_of_passed tracks follows passed
    refine { follows with holding := ?_ }
    intro call header publication held
    cases held
    exact ⟨later, found⟩
  | @delivered call header publication held =>
    -- the cursor is set from the header, whose number is the residue of the publication
    obtain ⟨later, found⟩ := follows.holding call header publication held
    have joined := follows.joined_le
    obtain ⟨exact_, ordered⟩ := delivered_append follows.exact follows.ordered
      ⟨publication, call, call.view header⟩ found rfl
      fun d member => Nat.lt_of_le_of_lt (follows.fresh d member).2 later
    refine ⟨tracks.numbered_nth found, by simp only; omega, (nth_bound found).2, exact_, ?_,
      ordered, by simp⟩
    intro d member
    rcases List.mem_append.mp member with old | new
    · have := follows.fresh d old
      simp only
      omega
    · cases List.mem_singleton.mp new
      simp only
      omega

section
variable {Id : Type}

structure Consistent (s : State Id) : Prop where
  tracks : Tracks s.shm s.published
  follows : ∀ i sub, s.subscribers i = some sub → Follows s.published sub

variable [DecidableEq Id]

theorem Consistent.put {s : State Id} {shm : TopicShm} {i : Id} {sub : Subscriber}
    (consistent : Consistent s) (same : SameRing s.shm shm)
    (follows : Follows s.published sub) :
    Consistent ({ s with shm := shm }.put i sub) where
  tracks := consistent.tracks.same same
  follows := by
    intro j other found
    by_cases self : j = i
    · subst self
      simp only [State.put, Function.update_self, Option.some.injEq] at found
      exact found ▸ follows
    · simp only [State.put, Function.update_of_ne self] at found
      exact consistent.follows j other found

theorem Consistent.change {s t : State Id} (consistent : Consistent s) (change : Change s t) :
    Consistent t := by
  cases change with
  | published p seq newest =>
    exact ⟨consistent.tracks.publish seq newest,
      fun i sub alive => (consistent.follows i sub alive).append _⟩
  | quiet same fewer =>
    exact ⟨consistent.tracks.same same,
      fun i sub alive => consistent.follows i sub (fewer i sub alive)⟩
  | joined i same _ => exact consistent.put same (.joins consistent.tracks)
  | moved i same alive move =>
    exact consistent.put same ((consistent.follows i _ alive).move consistent.tracks move)

/-- Every run in which no publisher dies half-way through its writes stays consistent. -/
theorem reachable_consistent {s : State Id}
    (reach : (machine Id).ReachableWhen CompleteOrUntouched s) : Consistent s := by
  refine reach.invariant Consistent ?_ fun s e t consistent whole taken =>
    consistent.change (next_change whole taken)
  rintro s rfl
  exact ⟨.init, by simp⟩

theorem cursor_kept {s t : State Id} {i : Id} {sub sub' : Subscriber} (change : Change s t)
    (before : s.subscribers i = some sub) (after : t.subscribers i = some sub')
    (nothing : sub'.deliveries = sub.deliveries) : sub'.lastSeq = sub.lastSeq := by
  have unmoved : s.subscribers i = some sub' → sub'.lastSeq = sub.lastSeq := by
    intro still
    rw [Option.some.inj (before.symm.trans still)]
  cases change with
  | published => exact unmoved after
  | quiet _ fewer => exact unmoved (fewer i sub' after)
  | joined j _ absent =>
    by_cases self : i = j
    · subst self
      simp [absent] at before
    · exact unmoved (by simpa [State.put, self] using after)
  | moved j _ alive move =>
    by_cases self : i = j
    · subst self
      cases Option.some.inj (before.symm.trans alive)
      simp only [State.put, Function.update_self, Option.some.injEq] at after
      subst after
      cases move with
      | failed | blocked | taken => rfl
      | delivered => simp at nothing
    · exact unmoved (by simpa [State.put, self] using after)

/-- What a subscriber is promised. A delivery carries the number of publications that were
complete when its receive took the lock, so `newest` says that the header returned is the
one written by the last publish before that. -/
structure DeliveredInOrder (s : State Id) (i : Id) (sub : Subscriber) : Prop where
  newest : ∀ d ∈ sub.deliveries, ∃ header, nth s.published d.publication = some header ∧
    d.returned = d.call.view header
  increasing : (sub.deliveries.map Delivery.publication).Pairwise (· < ·)
  fresh : ∀ d ∈ sub.deliveries, sub.joined < d.publication
  failed : ∀ e t sub', NoDeath s e → next s e = some t → t.subscribers i = some sub' →
    sub'.deliveries = sub.deliveries → sub'.lastSeq = sub.lastSeq

/-- Without deaths every subscriber keeps that promise, in runs of any length. -/
theorem receives_newest_in_order {s : State Id}
    (reach : (machine Id).ReachableWhen NoDeath s) {i : Id} {sub : Subscriber}
    (alive : s.subscribers i = some sub) : DeliveredInOrder s i sub := by
  have follows :=
    (reachable_consistent (reach.weaken NoDeath.completeOrUntouched)).follows i sub alive
  refine ⟨follows.exact, follows.ordered, fun d member => (follows.fresh d member).1, ?_⟩
  intro e t sub' safe taken after nothing
  exact cursor_kept (next_change (safe.completeOrUntouched s e) taken) alive after nothing

end

theorem receives_newest_in_order_twice :
    ∃ (s : State Nat) (sub : Subscriber), s.subscribers 0 = some sub ∧
      sub.deliveries.map Delivery.publication = [1, 2] ∧ DeliveredInOrder s 0 sub := by
  obtain ⟨s, reach, twice⟩ := Machine.reachable_of_check (machine Nat) NoDeath rfl
    [.construct 0, .publishRaw ⟨.custom, 8, 0, 1⟩, .receive 0 (.raw 64 (-1)) false, .finish 0,
      .publishLoaned ⟨.pose, 16, 8, 2⟩, .receive 0 (.loaned 0) false, .finish 0]
    (fun s => decide ((s.subscribers 0).map (fun sub => sub.deliveries.map Delivery.publication)
      = some [1, 2])) (by decide)
  obtain ⟨sub, alive, numbers⟩ := Option.map_eq_some_iff.mp (of_decide_eq_true twice)
  exact ⟨s, sub, alive, numbers, receives_newest_in_order reach alive⟩

end ComIpc.Topic
