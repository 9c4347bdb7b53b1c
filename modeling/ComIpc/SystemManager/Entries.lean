import ComIpc.SystemManager.Exits
import ComIpc.SystemManager.TopicNames

/-! The registry under failures and deaths.

Any number of processes are inside of `createOrGetTopic` and `createOrGetService`, their system
calls fail, and they die between any two writes. What the lookups are told and which entries
are made is then what a plain list of names would give, in which a death between the count
and the flag of an entry uses up a place.
-/

set_option autoImplicit false

namespace ComIpc.SystemManager.Steps

open Semantics

/-- The active entries in order; of the topics this is what `listTopics` prints. -/
def Table.names (table : Table) : List Bytes :=
  SystemManagerShm.topicLines ⟨.unlocked, table.count, table.slots⟩

def Table.line (table : Table) (i : Fin maxTopics) : Option Bytes :=
  if i.val < table.count then
    if (table.slots i).active then some (cstr (table.slots i).name) else none
  else none

theorem Table.names_eq (table : Table) :
    table.names = (List.finRange maxTopics).filterMap table.line := rfl

structure Table.Tidy (table : Table) : Prop where
  terminated : ∀ i, (cstr (table.slots i).name).length < nameSize
  unused : ∀ i : Fin maxTopics, table.count ≤ i.val → table.slots i = .zero

theorem Table.Tidy.init : Table.init.Tidy where
  terminated := fun _ => show (cstr TopicInfo.zero.name).length < nameSize by decide
  unused := fun _ _ => rfl

theorem Table.Tidy.find_iff {table : Table} (tidy : table.Tidy) (name : CString) :
    (table.find name).isSome = true ↔ name.bytes ∈ table.names := by
  rw [Table.find, SystemManagerShm.findTopic, List.find?_isSome, Table.names_eq, List.mem_filterMap]
  apply exists_congr
  intro i
  have compared := strncmp_stored (tidy.terminated i) name
  simp only [SystemManagerShm.matchesTopic, Bool.and_eq_true, decide_eq_true_eq, compared,
    Table.line]
  grind

/-! ### The three writes of an entry -/

theorem Table.Tidy.count {table : Table} (tidy : table.Tidy) :
    Table.Tidy { table with count := table.count + 1 } ∧
      Table.names { table with count := table.count + 1 } = table.names := by
  constructor
  · constructor
    · exact tidy.terminated
    · exact fun i above => tidy.unused i (Nat.le_of_succ_le above)
  · rw [Table.names_eq, Table.names_eq]
    apply List.filterMap_congr
    intro i _
    by_cases used : i.val < table.count
    · have below : i.val < table.count + 1 := Nat.lt_succ_of_lt used
      simp only [Table.line, if_pos used, if_pos below]
    · have zero := tidy.unused i (Nat.le_of_not_lt used)
      simp [Table.line, used, zero, TopicInfo.zero]

def Table.setSlot (table : Table) (idx : Fin maxTopics) (slot : TopicInfo) : Table :=
  { table with slots := Function.update table.slots idx slot }

@[simp] theorem Table.setSlot_count (table : Table) (idx : Fin maxTopics) (slot : TopicInfo) :
    (table.setSlot idx slot).count = table.count := rfl

@[simp] theorem Table.setSlot_self (table : Table) (idx : Fin maxTopics) (slot : TopicInfo) :
    (table.setSlot idx slot).slots idx = slot := Function.update_self _ _ _

theorem Table.setSlot_other (table : Table) {idx i : Fin maxTopics} (slot : TopicInfo)
    (elsewhere : i ≠ idx) : (table.setSlot idx slot).slots i = table.slots i :=
  Function.update_of_ne elsewhere _ _

theorem Table.Tidy.setSlot {table : Table} (tidy : table.Tidy) {idx : Fin maxTopics}
    (used : idx.val < table.count) {slot : TopicInfo} (short : (cstr slot.name).length < nameSize) :
    (table.setSlot idx slot).Tidy where
  terminated := by
    apply (Function.forall_update_iff table.slots
      fun _ slot => (cstr slot.name).length < nameSize).mpr
    exact ⟨short, fun i _ => tidy.terminated i⟩
  unused := by
    intro i above
    have above : table.count ≤ i.val := above
    have elsewhere : i ≠ idx := by
      rintro rfl
      omega
    exact (table.setSlot_other slot elsewhere).trans (tidy.unused i above)

theorem Table.line_other (table : Table) {idx i : Fin maxTopics} (slot : TopicInfo)
    (elsewhere : i ≠ idx) : (table.setSlot idx slot).line i = table.line i := by
  simp only [Table.line, table.setSlot_other slot elsewhere, Table.setSlot_count]

theorem Table.line_self (table : Table) {idx : Fin maxTopics} (slot : TopicInfo)
    (used : idx.val < table.count) :
    (table.setSlot idx slot).line idx = if slot.active then some (cstr slot.name) else none := by
  simp only [Table.line, Table.setSlot_self, Table.setSlot_count, if_pos used]

theorem Table.line_inactive {table : Table} {idx : Fin maxTopics}
    (inactive : (table.slots idx).active = false) : table.line idx = none := by
  simp [Table.line, inactive]

theorem Table.names_inactive (table : Table) {idx : Fin maxTopics} (slot : TopicInfo)
    (used : idx.val < table.count) (before : (table.slots idx).active = false)
    (after : slot.active = false) : (table.setSlot idx slot).names = table.names := by
  rw [Table.names_eq, Table.names_eq]
  apply List.filterMap_congr
  intro i _
  by_cases here : i = idx
  · rw [here, table.line_self slot used, after, table.line_inactive before]
    rfl
  · exact table.line_other slot here

theorem Table.names_active (table : Table) {idx : Fin maxTopics} (slot : TopicInfo)
    (last : idx.val + 1 = table.count) (before : (table.slots idx).active = false)
    (after : slot.active = true) :
    (table.setSlot idx slot).names = table.names ++ [cstr slot.name] := by
  rw [Table.names_eq, Table.names_eq]
  apply filterMap_finRange_push idx
  · intro i below
    have elsewhere : i ≠ idx := by
      rintro rfl
      omega
    exact table.line_other slot elsewhere
  · exact table.line_inactive before
  · rw [table.line_self slot (by omega), after, if_pos rfl]
  · intro i above
    have elsewhere : i ≠ idx := by
      rintro rfl
      omega
    have nothing : table.line i = none := by
      rw [Table.line, if_neg (by omega)]
    exact ⟨nothing, (table.line_other slot elsewhere).trans nothing⟩

/-! ### The list of names -/

/-- The names that were entered, and the places that deaths have used up. -/
structure Book where
  names : List Bytes
  lost : Nat
  deriving DecidableEq

def Book.places (book : Book) : Nat := book.names.length + book.lost

/-- What is seen of the registry: what a lookup tells its caller, whether the name is there and
whether there is room for another one; an entry; a death in the middle of one. -/
inductive Entry where
  | looked (c : Access) (found room : Bool)
  | entered (c : Access)
  | lost (kind : Kind)
  deriving DecidableEq

/-- A name that is not there is entered, cut to 63 characters, while there is a place. -/
def Entry.next (books : Kind → Book) : Entry → Option (Kind → Book)
  | .looked c found room => do
    let book := books c.kind
    guard (found = book.names.contains c.name.bytes ∧ room = decide (book.places < maxTopics))
    some books
  | .entered c => do
    let book := books c.kind
    guard (book.names.contains c.name.bytes = false ∧ book.places < maxTopics)
    some (Function.update books c.kind
      { book with names := book.names ++ [c.name.bytes.take (nameSize - 1)] })
  | .lost kind => do
    let book := books kind
    guard (book.places < maxTopics)
    some (Function.update books kind { book with lost := book.lost + 1 })

def books : Machine (Kind → Book) Entry where
  initial := fun books => books = fun _ => ⟨[], 0⟩
  next := Entry.next

def shows (_ : Kind → Book) (entry : Entry) (_ : Kind → Book) : List Entry := [entry]

/-! ### What is seen of the calls -/

/-- The kind whose count has been raised for an entry that is not active yet. -/
def Pc.entering : Pc → Option Kind
  | .naming c _ _ | .activating c _ _ => some c.kind
  | _ => none

def seenAt (tables : Kind → Table) : Pc → List Entry
  | .looking c => [.looked c ((tables c.kind).find c.name).isSome
      (decide ((tables c.kind).count < maxTopics))]
  | .activating c _ _ => [.entered c]
  | _ => []

def observe {P : Type} (s : State P) (e : Event P) (_ : State P) : List Entry :=
  match e with
  | .call _ _ => []
  | .step p _ => seenAt s.shared.tables (s.pcs p)
  | .dies p => ((s.pcs p).entering.map Entry.lost).toList

/-- What the process inside of the manager mutex can rely on. -/
def Sees (tables : Kind → Table) (books : Kind → Book) : Pc → Prop
  | .creating c restart | .sizing c restart _ | .mappingNew c restart _
  | .initialising c restart _ _ => restart = false → c.name.bytes ∉ (books c.kind).names
  | .reclaiming c | .retrying c | .counting c _ => c.name.bytes ∉ (books c.kind).names
  | .naming c _ idx => c.name.bytes ∉ (books c.kind).names ∧
      idx.val + 1 = (tables c.kind).count ∧ (tables c.kind).slots idx = .zero
  | .activating c _ idx => c.name.bytes ∉ (books c.kind).names ∧
      idx.val + 1 = (tables c.kind).count ∧ ((tables c.kind).slots idx).active = false ∧
      cstr ((tables c.kind).slots idx).name = c.name.bytes.take (nameSize - 1)
  | _ => True

/-- The tables stand for the lists, while the process inside of the mutex is at a point of its
call; outside of the mutex it is at none. -/
structure Keeps (tables : Kind → Table) (books : Kind → Book) (pc : Pc) : Prop where
  tidy : ∀ kind, (tables kind).Tidy
  names : ∀ kind, (tables kind).names = (books kind).names
  count : ∀ kind, (tables kind).count =
    (books kind).places + if pc.entering = some kind then 1 else 0
  sees : Sees tables books pc

theorem Keeps.move {tables : Kind → Table} {books : Kind → Book} {pc pc' : Pc}
    (keeps : Keeps tables books pc) (same : pc'.entering = pc.entering)
    (sees : Sees tables books pc') : Keeps tables books pc' :=
  ⟨keeps.tidy, keeps.names, same ▸ keeps.count, sees⟩

theorem Keeps.change {tables : Kind → Table} {books : Kind → Book} {pc pc' : Pc} {kind : Kind}
    {table : Table} {book : Book} (keeps : Keeps tables books pc) (tidy : table.Tidy)
    (names : table.names = book.names)
    (count : table.count = book.places + if pc'.entering = some kind then 1 else 0)
    (others : ∀ other, other ≠ kind → pc.entering ≠ some other ∧ pc'.entering ≠ some other)
    (sees : Sees (Function.update tables kind table) (Function.update books kind book) pc') :
    Keeps (Function.update tables kind table) (Function.update books kind book) pc' where
  tidy := by
    apply (Function.forall_update_iff tables fun _ table => table.Tidy).mpr
    exact ⟨tidy, fun other _ => keeps.tidy other⟩
  names := by
    intro other
    by_cases same : other = kind
    · subst same
      simpa only [Function.update_self] using names
    · simpa only [Function.update_of_ne same] using keeps.names other
  count := by
    intro other
    by_cases same : other = kind
    · subst same
      simpa only [Function.update_self] using count
    · obtain ⟨before, after⟩ := others other same
      have kept := keeps.count other
      rw [if_neg before] at kept
      rw [Function.update_of_ne same, Function.update_of_ne same, if_neg after, kept]
  sees := sees

theorem Keeps.find_iff {tables : Kind → Table} {books : Kind → Book} {pc : Pc}
    (keeps : Keeps tables books pc) (c : Access) :
    ((tables c.kind).find c.name).isSome = decide (c.name.bytes ∈ (books c.kind).names) := by
  rw [Bool.eq_iff_iff, (keeps.tidy c.kind).find_iff, keeps.names, decide_eq_true_iff]

theorem Keeps.looked {tables : Kind → Table} {books : Kind → Book} {c : Access}
    (keeps : Keeps tables books (.looking c)) :
    ∃ entry, Entry.next books entry = some books ∧ [entry] = seenAt tables (.looking c) := by
  have count := keeps.count c.kind
  have places : (tables c.kind).count = (books c.kind).places := count
  refine ⟨_, ?_, rfl⟩
  simp [Entry.next, keeps.find_iff, places, guard]

def Matches (books after : Kind → Book) (seen : List Entry) : Prop :=
  (after = books ∧ seen = []) ∨ ∃ entry, Entry.next books entry = some after ∧ [entry] = seen

theorem Keeps.counted {tables : Kind → Table} {books : Kind → Book} {c : Access} {obj : Nat}
    (keeps : Keeps tables books (.counting c obj)) (room : (tables c.kind).count < maxTopics) :
    Keeps (Function.update tables c.kind
        { tables c.kind with count := (tables c.kind).count + 1 })
      books (.naming c obj ⟨(tables c.kind).count, room⟩) := by
  obtain ⟨tidy, names⟩ := (keeps.tidy c.kind).count
  have count : (tables c.kind).count = (books c.kind).places := keeps.count c.kind
  rw [← Function.update_eq_self c.kind books]
  apply keeps.change tidy
  · rw [names, keeps.names]
  · simp [Pc.entering, count]
  · intro other different
    simp [Pc.entering, Ne.symm different]
  · have zero := (keeps.tidy c.kind).unused ⟨_, room⟩ (Nat.le_refl _)
    simpa [Sees, zero] using keeps.sees

theorem Keeps.named {tables : Kind → Table} {books : Kind → Book} {c : Access} {obj : Nat}
    {idx : Fin maxTopics} (keeps : Keeps tables books (.naming c obj idx)) :
    Keeps (Function.update tables c.kind ((tables c.kind).setSlot idx
        { (tables c.kind).slots idx with
          name := strncpy ((tables c.kind).slots idx).name c.name.bytes (nameSize - 1) }))
      books (.activating c obj idx) := by
  obtain ⟨absent, last, zero⟩ := keeps.sees
  have stored : cstr (strncpy TopicInfo.zero.name c.name.bytes (nameSize - 1)) =
      c.name.bytes.take (nameSize - 1) := cstr_strncpy [] c.name.nulFree rfl
  rw [← Function.update_eq_self c.kind books, zero]
  have inactive : ((tables c.kind).slots idx).active = false := zero ▸ rfl
  apply keeps.change
  · apply (keeps.tidy c.kind).setSlot (by omega)
    rw [stored, List.length_take]
    exact Nat.lt_of_le_of_lt (Nat.min_le_left _ _) (by decide)
  · rw [Table.names_inactive _ _ (by omega) inactive rfl, keeps.names]
  · exact keeps.count c.kind
  · intro other different
    simp [Pc.entering, Ne.symm different]
  · simp only [Sees, Function.update_self, Table.setSlot_self, Table.setSlot_count]
    exact ⟨absent, last, rfl, stored⟩

theorem Keeps.entered {tables : Kind → Table} {books : Kind → Book} {c : Access} {obj : Nat}
    {idx : Fin maxTopics} (keeps : Keeps tables books (.activating c obj idx)) :
    ∃ after, Keeps (Function.update tables c.kind ((tables c.kind).setSlot idx
        { (tables c.kind).slots idx with active := true })) after (.leaving c (some obj)) ∧
      Entry.next books (.entered c) = some after := by
  obtain ⟨absent, last, inactive, stored⟩ := keeps.sees
  have count : (tables c.kind).count = (books c.kind).places + 1 := by
    simpa [Pc.entering] using keeps.count c.kind
  have room : (books c.kind).places < maxTopics := by
    have bound := idx.isLt
    omega
  let book := books c.kind
  refine ⟨Function.update books c.kind
    { book with names := book.names ++ [c.name.bytes.take (nameSize - 1)] }, ?_,
    by simp [Entry.next, absent, room, guard, book]⟩
  apply keeps.change
  · exact (keeps.tidy c.kind).setSlot (by omega) ((keeps.tidy c.kind).terminated idx)
  · rw [Table.names_active _ _ last inactive rfl, keeps.names, stored]
  · rw [Table.setSlot_count, count]
    simp only [Book.places, List.length_append, List.length_singleton, Pc.entering, book]
    simp only [reduceCtorEq, if_false]
    omega
  · intro other different
    simp [Pc.entering, Ne.symm different]
  · trivial

theorem Moves.followed {sh sh' : Shared} {pc pc' : Pc} (moves : Moves sh pc sh' pc')
    {books : Kind → Book} (keeps : Keeps sh.tables books pc) :
    ∃ after, Keeps sh'.tables after pc' ∧ Matches books after (seenAt sh.tables pc) := by
  cases moves with
  | restarts | finds | refuses =>
    obtain ⟨entry, moved, same⟩ := keeps.looked
    exact ⟨books, keeps.move rfl trivial, .inr ⟨entry, moved, same⟩⟩
  | @starts c absent =>
    obtain ⟨entry, moved, same⟩ := keeps.looked
    refine ⟨books, keeps.move rfl fun _ => ?_, .inr ⟨entry, moved, same⟩⟩
    have found := keeps.find_iff c
    rw [absent] at found
    exact of_decide_eq_false found.symm
  | misses | opens | unmapped | joins | maps | unjoined | joined | uncreated | gone | unsized
  | unmappedNew | replaced => exact ⟨books, keeps.move rfl trivial, .inl ⟨rfl, rfl⟩⟩
  | wipes fails =>
    refine ⟨books, ?_, .inl ⟨rfl, rfl⟩⟩
    cases fails <;> exact keeps.move rfl nofun
  | creates opened =>
    rw [Shared.openExclusive_tables opened]
    exact ⟨books, keeps.move rfl keeps.sees, .inl ⟨rfl, rfl⟩⟩
  | retries opened =>
    rw [Shared.openExclusive_tables opened]
    exact ⟨books, keeps.move rfl (fun _ => keeps.sees), .inl ⟨rfl, rfl⟩⟩
  | orphaned => exact ⟨books, keeps.move rfl (keeps.sees rfl), .inl ⟨rfl, rfl⟩⟩
  | reclaims fails =>
    refine ⟨books, ?_, .inl ⟨rfl, rfl⟩⟩
    cases fails <;> exact keeps.move rfl keeps.sees
  | sizes | mapsNew | initialises => exact ⟨books, keeps.move rfl keeps.sees, .inl ⟨rfl, rfl⟩⟩
  | completed => exact ⟨books, keeps.move rfl (keeps.sees rfl), .inl ⟨rfl, rfl⟩⟩
  | counts room => exact ⟨books, keeps.counted room, .inl ⟨rfl, rfl⟩⟩
  | names => exact ⟨books, keeps.named, .inl ⟨rfl, rfl⟩⟩
  | activates =>
    obtain ⟨after, kept, moved⟩ := keeps.entered
    exact ⟨after, kept, .inr ⟨_, moved, rfl⟩⟩

/-- A death between the count and the flag of an entry uses up a place. -/
theorem Keeps.died {tables : Kind → Table} {books : Kind → Book} {pc : Pc}
    (keeps : Keeps tables books pc) : ∃ after, Keeps tables after .idle ∧
      Matches books after (pc.entering.map Entry.lost).toList := by
  cases entering : pc.entering with
  | none => exact ⟨books, keeps.move entering.symm trivial, .inl ⟨rfl, rfl⟩⟩
  | some kind =>
    have count : (tables kind).count = (books kind).places + 1 := by
      simpa [entering] using keeps.count kind
    have room : (books kind).places < maxTopics := by
      have last : ∃ idx : Fin maxTopics, idx.val + 1 = (tables kind).count := by
        cases pc with
        | naming c obj idx => exact ⟨idx, Option.some.inj entering ▸ keeps.sees.2.1⟩
        | activating c obj idx => exact ⟨idx, Option.some.inj entering ▸ keeps.sees.2.1⟩
        | _ => contradiction
      obtain ⟨idx, last⟩ := last
      have bound := idx.isLt
      omega
    let book := books kind
    refine ⟨Function.update books kind { book with lost := book.lost + 1 }, ?_,
      .inr ⟨.lost kind, by simp [Entry.next, room, guard, book], rfl⟩⟩
    rw [← Function.update_eq_self kind tables]
    apply keeps.change (keeps.tidy kind)
    · exact keeps.names kind
    · rw [count]
      simp only [Book.places, Pc.entering, reduceCtorEq, if_false, book]
      omega
    · intro other different
      rw [entering]
      exact ⟨fun same => different (Option.some.inj same).symm, nofun⟩
    · trivial

theorem seenAt_outside {tables : Kind → Table} {pc : Pc} (outside : pc.holding = false) :
    seenAt tables pc = [] := by
  cases pc <;> first | rfl | contradiction

theorem Pc.entering_outside {pc : Pc} (outside : pc.holding = false) : pc.entering = none := by
  cases pc <;> first | rfl | contradiction

theorem Exclusive.others {P : Type} {s : State P} (exclusive : Exclusive s) {p : P}
    (inside : (s.pcs p).holding = true) (q : P) (other : q ≠ p) : (s.pcs q).holding = false := by
  rw [Bool.eq_false_iff]
  exact fun also => other (exclusive.alone q p also inside)

section
variable {P : Type}

structure Kept (s : State P) (books : Kind → Book) : Prop where
  exclusive : Exclusive s
  inside : ∀ p, (s.pcs p).holding = true → Keeps s.shared.tables books (s.pcs p)
  outside : (∀ p, (s.pcs p).holding = false) → Keeps s.shared.tables books .idle

theorem Kept.names {s : State P} {books : Kind → Book} (kept : Kept s books) (kind : Kind) :
    (s.shared.tables kind).Tidy ∧ (s.shared.tables kind).names = (books kind).names := by
  by_cases nobody : ∀ p, (s.pcs p).holding = false
  · exact ⟨(kept.outside nobody).tidy kind, (kept.outside nobody).names kind⟩
  · push Not at nobody
    obtain ⟨p, holding⟩ := nobody
    have keeps := kept.inside p (by simpa using holding)
    exact ⟨keeps.tidy kind, keeps.names kind⟩

end

section
variable {P : Type} [DecidableEq P]

theorem Kept.elsewhere {s : State P} {books : Kind → Book} (kept : Kept s books) {p : P} {pc : Pc}
    {mutex : RobustMutex} {returned : List (Access × Nat)} (before : (s.pcs p).holding = false)
    (after : pc.holding = false)
    (exclusive : Exclusive (State.goto ⟨mutex, s.shared, s.pcs, returned⟩ p pc)) :
    Kept (State.goto ⟨mutex, s.shared, s.pcs, returned⟩ p pc) books where
  exclusive := exclusive
  inside := by
    intro q holding
    by_cases same : q = p
    · subst same
      simp [State.goto, after] at holding
    · simp only [State.goto, Function.update_of_ne same] at holding ⊢
      exact kept.inside q holding
  outside := by
    intro nobody
    apply kept.outside
    intro q
    by_cases same : q = p
    · exact same ▸ before
    · simpa [State.goto, same] using nobody q

theorem Kept.alone {s : State P} {books : Kind → Book} {p : P} {pc : Pc} {mutex : RobustMutex}
    {shared : Shared} {returned : List (Access × Nat)}
    (others : ∀ q, q ≠ p → (s.pcs q).holding = false)
    (exclusive : Exclusive (State.goto ⟨mutex, shared, s.pcs, returned⟩ p pc))
    (keeps : Keeps shared.tables books (if pc.holding then pc else .idle)) :
    Kept (State.goto ⟨mutex, shared, s.pcs, returned⟩ p pc) books where
  exclusive := exclusive
  inside := by
    intro q holding
    by_cases same : q = p
    · subst same
      simp only [State.goto, Function.update_self] at holding ⊢
      rwa [if_pos holding] at keeps
    · simp [State.goto, same, others q same] at holding
  outside := by
    intro nobody
    have left := nobody p
    simp only [State.goto, Function.update_self] at left
    rwa [left] at keeps

theorem Kept.step {s t : State P} {e : Event P} {books : Kind → Book} (kept : Kept s books)
    (step : Step s e t) : ∃ after, Kept t after ∧ Matches books after (observe s e t) := by
  have exclusive := kept.exclusive.step step
  cases step with
  | called idle =>
    exact ⟨books, kept.elsewhere (by rw [idle]; rfl) rfl exclusive, .inl ⟨rfl, rfl⟩⟩
  | @locked p c fails here usable =>
    have nobody : ∀ q, (s.pcs q).holding = false := by
      intro q
      rw [Bool.eq_false_iff]
      intro inside
      rw [kept.exclusive.held q inside] at usable
      exact absurd usable (by decide)
    have keeps : Keeps s.shared.tables books (.looking c) :=
      (kept.outside nobody).move rfl trivial
    exact ⟨books, .alone (fun q _ => nobody q) exclusive keeps,
      .inl ⟨rfl, by rw [observe, here]; rfl⟩⟩
  | @released p c fails here =>
    have inside : (s.pcs p).holding = true := by rw [here]; rfl
    have keeps := kept.inside p inside
    rw [here] at keeps
    exact ⟨books, .alone (kept.exclusive.others inside) exclusive (keeps.move rfl trivial),
      .inl ⟨rfl, by rw [observe, here]; rfl⟩⟩
  | @left p c result fails here =>
    have inside : (s.pcs p).holding = true := by rw [here]; rfl
    have keeps := kept.inside p inside
    rw [here] at keeps
    exact ⟨books, .alone (kept.exclusive.others inside) exclusive (keeps.move rfl trivial),
      .inl ⟨rfl, by rw [observe, here]; rfl⟩⟩
  | @returned p c result fails here =>
    exact ⟨books, kept.elsewhere (by rw [here]; rfl) rfl exclusive,
      .inl ⟨rfl, by rw [observe, here]; rfl⟩⟩
  | @moved p fails shared pc moves =>
    cases holding : (s.pcs p).holding with
    | false =>
      obtain rfl := moves.outside holding
      exact ⟨books, kept.elsewhere holding (moves.holding.trans holding) exclusive,
        .inl ⟨rfl, seenAt_outside holding⟩⟩
    | true =>
      obtain ⟨after, keeps, shown⟩ := moves.followed (kept.inside p holding)
      refine ⟨after, .alone (kept.exclusive.others holding) exclusive ?_, shown⟩
      rwa [if_pos (moves.holding.trans holding)]
  | @died p =>
    rcases Bool.eq_false_or_eq_true (s.pcs p).holding with holding | holding
    · obtain ⟨after, keeps, shown⟩ := (kept.inside p holding).died
      exact ⟨after, .alone (kept.exclusive.others holding) exclusive keeps, shown⟩
    · exact ⟨books, kept.elsewhere holding rfl exclusive,
        .inl ⟨rfl, by rw [observe, Pc.entering_outside holding]; rfl⟩⟩

theorem kept_initial {s : State P} (initial : (calls P).initial s) : Kept s fun _ => ⟨[], 0⟩ := by
  have exclusive := exclusive_initial initial
  obtain ⟨_, tables, _, _, pcs, _⟩ := initial
  have keeps : Keeps s.shared.tables (fun _ => ⟨[], 0⟩) .idle := by
    rw [tables]
    constructor
    · exact fun _ => .init
    · intro kind
      rfl
    · exact fun _ => rfl
    · trivial
  refine ⟨exclusive, ?_, fun _ => keeps⟩
  intro p holding
  rw [pcs] at holding
  contradiction

theorem entries_simulation : Simulation (calls P) (fun _ _ => True) observe books
    (fun _ _ => True) shows Kept where
  start := fun s initial => ⟨_, rfl, kept_initial initial⟩
  step := by
    intro s e t before kept _ taken
    obtain ⟨after, keeps, silent | ⟨entry, moved, shown⟩⟩ := kept.step (next_step taken)
    · exact ⟨after, keeps, .inl silent⟩
    · exact ⟨after, keeps, .inr ⟨entry, trivial, moved, shown⟩⟩

/-- What all lookups are told, whatever fails and whoever dies, is what a list of names gives to
which names are only added, and of whose places each death between a count and its flag uses up
one. Between the calls the count is the number of names and lost places. -/
theorem registry_survives_deaths {s : State P} {seen : List Entry}
    (trace : (calls P).Traces (fun _ _ => True) observe s seen) :
    ∃ after, books.Traces (fun _ _ => True) shows after seen ∧
      (∀ kind, (s.shared.tables kind).names = (after kind).names) ∧
      ((∀ p, (s.pcs p).holding = false) →
        ∀ kind, (s.shared.tables kind).count = (after kind).places) := by
  obtain ⟨after, kept, shown⟩ := entries_simulation.traces trace
  exact ⟨after, shown, fun kind => (kept.names kind).2, fun nobody => (kept.outside nobody).count⟩

/-! ### What the lists keep -/

def Book.Distinct (book : Book) : Prop :=
  book.names.Pairwise fun earlier later => later.length < nameSize - 1 → earlier ≠ later

theorem Book.Distinct.enter {book : Book} (distinct : book.Distinct) {name : CString}
    (absent : name.bytes ∉ book.names) :
    Book.Distinct { book with names := book.names ++ [name.bytes.take (nameSize - 1)] } := by
  refine List.pairwise_append.mpr ⟨distinct, List.pairwise_singleton _ _, ?_⟩
  intro earlier member later last short same
  obtain rfl := List.mem_singleton.mp last
  have whole : name.bytes.take (nameSize - 1) = name.bytes := by
    rw [List.length_take] at short
    exact List.take_of_length_le (by omega)
  exact absent (whole ▸ same ▸ member)

structure Book.Extends (before after : Book) : Prop where
  names : before.names <+: after.names
  distinct : before.Distinct → after.Distinct

theorem Book.Extends.refl (book : Book) : book.Extends book := ⟨List.prefix_refl _, id⟩

theorem Book.Extends.trans {first second third : Book} (before : first.Extends second)
    (after : second.Extends third) : first.Extends third :=
  ⟨before.names.trans after.names, after.distinct ∘ before.distinct⟩

theorem Entry.extends {before after : Kind → Book} {entry : Entry}
    (moved : entry.next before = some after) (kind : Kind) :
    (before kind).Extends (after kind) := by
  cases entry with
  | looked c found room =>
    simp only [Entry.next, Option.bind_eq_bind, Option.bind_eq_some_iff, Option.some.injEq] at moved
    obtain ⟨_, _, rfl⟩ := moved
    exact .refl _
  | entered c =>
    simp only [Entry.next, Option.bind_eq_bind, Option.bind_eq_some_iff, Option.some.injEq,
      guard_passed, List.contains_eq_mem, decide_eq_false_iff_not] at moved
    obtain ⟨_, ⟨absent, _⟩, rfl⟩ := moved
    by_cases same : kind = c.kind
    · subst same
      rw [Function.update_self]
      exact ⟨List.prefix_append _ _, fun distinct => distinct.enter absent⟩
    · rw [Function.update_of_ne same]
      exact .refl _
  | lost other =>
    simp only [Entry.next, Option.bind_eq_bind, Option.bind_eq_some_iff, Option.some.injEq] at moved
    obtain ⟨_, _, rfl⟩ := moved
    by_cases same : kind = other
    · subst same
      rw [Function.update_self]
      exact ⟨List.prefix_refl _, id⟩
    · rw [Function.update_of_ne same]
      exact .refl _

def GoesOn (before : Kind → Book) (s : State P) : Prop :=
  ∃ after, Kept s after ∧ ∀ kind, (before kind).Extends (after kind)

theorem GoesOn.step {before : Kind → Book} {s t : State P} {e : Event P} (goes : GoesOn before s)
    (taken : (calls P).next s e = some t) : GoesOn before t := by
  obtain ⟨here, kept, extends_⟩ := goes
  obtain ⟨after, kept, shown⟩ := kept.step (next_step taken)
  refine ⟨after, kept, fun kind => (extends_ kind).trans ?_⟩
  rcases shown with ⟨rfl, _⟩ | ⟨entry, moved, _⟩
  · exact .refl _
  · exact Entry.extends moved kind

theorem reachable_goesOn {s : State P} (reach : (calls P).Reachable s) :
    GoesOn (fun _ => ⟨[], 0⟩) s := by
  refine reach.invariant (GoesOn fun _ => ⟨[], 0⟩) ?_ ?_
  · exact fun u initial => ⟨_, kept_initial initial, fun _ => .refl _⟩
  · exact fun _ _ _ goes _ taken => goes.step taken

/-- A step keeps every name in its place. -/
theorem names_step {s t : State P} {e : Event P} (reach : (calls P).Reachable s)
    (taken : (calls P).next s e = some t) (kind : Kind) :
    (s.shared.tables kind).names <+: (t.shared.tables kind).names := by
  obtain ⟨here, kept, _⟩ := reachable_goesOn reach
  have goes : GoesOn here s := ⟨here, kept, fun _ => .refl _⟩
  obtain ⟨after, keptAfter, extends_⟩ := goes.step taken
  rw [(kept.names kind).2, (keptAfter.names kind).2]
  exact (extends_ kind).names

/-- An entry that is active once stays for good, with its name and in its order; no two entries
have the same name of less than 63 characters, and a lookup that has succeeded goes on to. -/
theorem entries_stay {s t : State P} (reach : (calls P).Reachable s)
    (path : (calls P).Continues s t) (kind : Kind) :
    (s.shared.tables kind).names <+: (t.shared.tables kind).names ∧
      (t.shared.tables kind).names.Pairwise
        (fun earlier later => later.length < nameSize - 1 → earlier ≠ later) ∧
      ∀ name, ((s.shared.tables kind).find name).isSome = true →
        ((t.shared.tables kind).find name).isSome = true := by
  obtain ⟨here, keptHere, fresh⟩ := reachable_goesOn reach
  have goes : GoesOn here t :=
    path.kept (GoesOn here) (fun _ _ _ goes taken => goes.step taken)
      ⟨here, keptHere, fun _ => .refl _⟩
  obtain ⟨after, kept, extends_⟩ := goes
  obtain ⟨tidyHere, namesHere⟩ := keptHere.names kind
  obtain ⟨tidy, names⟩ := kept.names kind
  have front : (s.shared.tables kind).names <+: (t.shared.tables kind).names := by
    rw [namesHere, names]
    exact (extends_ kind).names
  refine ⟨front, ?_, ?_⟩
  · rw [names]
    exact (extends_ kind).distinct ((fresh kind).distinct List.Pairwise.nil)
  · intro name found
    rw [tidyHere.find_iff] at found
    exact (tidy.find_iff name).mpr (front.subset found)

end

def publisher : Access := ⟨.topic, plain, true⟩

/-- A publisher dies between the count and the flag of its entry. The next one finds no entry,
takes the object that is there for an orphan and makes an entry in the next slot. -/
theorem registry_survives_deaths_once : ∃ (s : State (Fin 2)) (after : Kind → Book),
    (s.shared.tables .topic).count = 2 ∧
      books.Traces (fun _ _ => True) shows after
        [.looked publisher false true, .lost .topic, .looked publisher false true,
          .entered publisher] ∧
      (∀ kind, (s.shared.tables kind).names = (after kind).names) ∧
      ((∀ p, (s.pcs p).holding = false) →
        ∀ kind, (s.shared.tables kind).count = (after kind).places) := by
  have ends : ((calls (Fin 2)).watchedRun (fun _ _ => True) observe fresh
      (undisturbed 0 publisher 11 ++ [.dies 0] ++ undisturbed 1 publisher 17)).map
      (fun r => decide (r.2 = [.looked publisher false true, .lost .topic,
        .looked publisher false true, .entered publisher] ∧
        (r.1.shared.tables .topic).count = 2)) = some true := by
    decide +kernel
  obtain ⟨⟨s, seen⟩, path, scene⟩ := Option.map_eq_some_iff.mp ends
  obtain ⟨rfl, count⟩ := of_decide_eq_true scene
  obtain ⟨after, shown⟩ :=
    registry_survives_deaths (Machine.Traces.watchedRun (.start fresh_initial) _ path)
  exact ⟨s, after, count, shown⟩

theorem entries_stay_death : ∃ s t : State (Fin 2),
    (calls (Fin 2)).Continues s t ∧
      (s.shared.tables .topic).names <+: (t.shared.tables .topic).names ∧
      (t.shared.tables .topic).names.Pairwise
        (fun earlier later => later.length < nameSize - 1 → earlier ≠ later) ∧
      ∀ name, ((s.shared.tables .topic).find name).isSome = true →
        ((t.shared.tables .topic).find name).isSome = true := by
  let s := ((calls (Fin 2)).run fresh (undisturbed 1 publisher 15)).getD fresh
  have reach : (calls (Fin 2)).Reachable s :=
    Machine.Reachable.getD (.start fresh_initial) _ _ (by decide +kernel)
  have goes : ((calls (Fin 2)).run s
      (undisturbed 0 ⟨.topic, underscored, true⟩ 11 ++ [.dies 0])).isSome = true := by
    decide +kernel
  obtain ⟨t, path⟩ := Option.isSome_iff_exists.mp goes
  exact ⟨s, t, ⟨_, path⟩, entries_stay reach ⟨_, path⟩ .topic⟩

end ComIpc.SystemManager.Steps
