import ComIpc.SystemManager.Moves

/-! When a lookup yields an initialised object.

An entry is made after the object behind it was initialised, so what a lookup has found is
initialised for good, unless the object is replaced while the entry is there: by the restart of
a server, or under another name that is rewritten to the same object name. An entry whose name
was cut stands for an object that its maker has never looked at.
-/

set_option autoImplicit false

namespace ComIpc.SystemManager.Steps

open Semantics

def Table.Holds (table : Table) (name : CString) : Prop :=
  ∃ i : Fin maxTopics, i.val < table.count ∧ (table.slots i).active = true ∧
    storedName (table.slots i) = name

namespace Shared

def Registered (sh : Shared) (kind : Kind) (name : CString) : Prop := (sh.tables kind).Holds name

/-- The object has its full size, and all that its kind asks for was initialised. -/
def Initialised (sh : Shared) (kind : Kind) (obj : Nat) : Prop :=
  (sh.objects obj).sized = true ∧ ∀ field ∈ kind.fields, field ∈ (sh.objects obj).written

instance (sh : Shared) (kind : Kind) (obj : Nat) : Decidable (sh.Initialised kind obj) :=
  inferInstanceAs (Decidable (_ ∧ _))

/-- Nobody can open an object under the name that is not initialised. -/
def Clear (sh : Shared) (kind : Kind) (name : CString) : Prop :=
  ∀ obj ∈ sh.space.linked (kind.shmName name), sh.Initialised kind obj

instance (sh : Shared) (kind : Kind) (name : CString) : Decidable (sh.Clear kind name) :=
  inferInstanceAs (Decidable (∀ obj ∈ sh.space.linked (kind.shmName name), _))

end Shared

theorem kind_of_shmName {kind other : Kind} {name another : CString}
    (same : kind.shmName name = other.shmName another) : kind = other := by
  have letter : ∀ (kind : Kind) (name : CString), ((kind.shmName name).drop 9).head? =
      some (if kind = .topic then 0x74 else 0x73) := by
    intro kind name
    cases kind <;> rfl
  have letters := (letter kind name).symm.trans (same ▸ letter other another)
  cases kind <;> cases other <;> first | rfl | exact absurd letters (by decide)

theorem Shared.listed_of_registered {sh : Shared} {kind : Kind} {name : CString}
    (registered : sh.Registered kind name) : sh.listed kind (kind.shmName name) = true := by
  obtain ⟨i, used, active, stored⟩ := registered
  simp only [Shared.listed, List.any_eq_true, Bool.and_eq_true, decide_eq_true_eq]
  exact ⟨i, List.mem_finRange i, ⟨used, active⟩, by rw [stored]⟩

/-! ### What the shared state keeps -/

structure Later (sh sh' : Shared) : Prop where
  registered : ∀ kind name, sh.Registered kind name → sh'.Registered kind name
  initialised : ∀ kind obj, sh.Initialised kind obj → sh'.Initialised kind obj

theorem Later.refl (sh : Shared) : Later sh sh := ⟨fun _ _ h => h, fun _ _ h => h⟩

/-- Slots are terminated and, past the count, still zero-filled; behind an entry is an
initialised object, or one that replaced it. -/
structure Good (sh : Shared) : Prop where
  terminated : ∀ kind i, (cstr ((sh.tables kind).slots i).name).length < nameSize
  unused : ∀ kind i, (sh.tables kind).count ≤ i.val → (sh.tables kind).slots i = .zero
  behind : ∀ kind name obj, sh.Registered kind name →
    sh.space.linked (kind.shmName name) = some obj →
    sh.Initialised kind obj ∨ sh.replacing (kind.shmName name) = true

/-- The object that a creator works on; nobody else can unlink it. -/
def Shared.Owns (sh : Shared) (c : Access) (obj : Nat) : Prop :=
  sh.space.linked c.path = some obj

/-- What a call can rely on at each point. -/
def Knows (sh : Shared) : Pc → Prop
  | .idle | .locking _ | .looking _ | .wiping _ | .creating _ _ | .reclaiming _ | .retrying _ =>
    True
  | .releasing c | .opening c => sh.Registered c.kind c.name
  | .mapping c obj | .joining c obj => sh.Initialised c.kind obj
  | .leaving c result | .returning c result => ∀ obj ∈ result, sh.Initialised c.kind obj
  | .sizing c _ obj => sh.Owns c obj
  | .mappingNew c _ obj => sh.Owns c obj ∧ (sh.objects obj).sized = true
  | .initialising c _ obj rest => sh.Owns c obj ∧ (sh.objects obj).sized = true ∧
    ∀ field ∈ c.kind.fields, field ∈ (sh.objects obj).written ∨ field ∈ rest
  | .counting c obj => sh.Owns c obj ∧ sh.Initialised c.kind obj
  | .naming c obj idx => sh.Owns c obj ∧ sh.Initialised c.kind obj ∧
    idx.val < (sh.tables c.kind).count ∧ (sh.tables c.kind).slots idx = .zero
  | .activating c obj idx => sh.Owns c obj ∧ sh.Initialised c.kind obj ∧
    idx.val < (sh.tables c.kind).count ∧ ((sh.tables c.kind).slots idx).active = false ∧
    (c.name.bytes.length < nameSize → storedName ((sh.tables c.kind).slots idx) = c.name)

theorem find_registered {sh : Shared} (good : Good sh) {kind : Kind} {name : CString}
    {i : Fin maxTopics} (found : (sh.tables kind).find name = some i) :
    sh.Registered kind name := by
  have matched := List.find?_some found
  simp only [SystemManagerShm.matchesTopic, Bool.and_eq_true, decide_eq_true_eq] at matched
  obtain ⟨⟨used, active⟩, same⟩ := matched
  exact ⟨i, used, active, CString.ext ((strncmp_stored (good.terminated kind i) name).mp same)⟩

/-! ### One lemma for each step that changes what is shared -/

theorem Good.unlink {sh : Shared} (good : Good sh) (path : Bytes) : Good (sh.unlink path) where
  terminated := good.terminated
  unused := good.unused
  behind := by
    intro kind name obj registered linked
    have linked : (sh.space.unlink path).linked (kind.shmName name) = some obj := linked
    rw [ShmSpace.linked_unlink] at linked
    split at linked
    · contradiction
    · exact good.behind kind name obj registered linked

structure Created (sh sh' : Shared) (c : Access) (obj : Nat) : Prop where
  good : Good sh'
  later : Later sh sh'
  owns : sh'.Owns c obj

theorem openExclusive_created {sh sh' : Shared} {c : Access} {obj : Nat} (good : Good sh)
    (opened : sh.openExclusive c.kind c.path = some (sh', obj)) : Created sh sh' c obj := by
  obtain ⟨⟨space, new⟩, created, same⟩ := Option.map_eq_some_iff.mp opened
  obtain ⟨rfl, rfl⟩ := Prod.mk.inj same
  simp only [ShmSpace.openExclusive] at created
  split at created
  · obtain ⟨rfl, rfl⟩ := Prod.mk.inj (Option.some.inj created)
    refine ⟨⟨good.terminated, good.unused, ?_⟩, ⟨fun _ _ h => h, fun _ _ h => h⟩, ?_⟩
    · intro kind name other registered linked
      by_cases here : kind.shmName name = c.path
      · -- the entry was there before the object that stands behind it now
        obtain rfl := kind_of_shmName here
        refine .inr ?_
        have listed : sh.listed c.kind (c.kind.shmName name) = true :=
          Shared.listed_of_registered registered
        simp [here, here ▸ listed]
      · have linked : (sh.space.create c.path).linked (kind.shmName name) = some other := linked
        rw [ShmSpace.linked_create, if_neg here] at linked
        refine (good.behind kind name other registered linked).imp_right fun replacing => ?_
        simpa only [Function.update_of_ne here] using replacing
    · exact (ShmSpace.linked_create _ _ _).trans (if_pos rfl)
  · contradiction

theorem Later.objects {sh : Shared} {objects : Nat → Object}
    (sized : ∀ obj, (sh.objects obj).sized = true → (objects obj).sized = true)
    (written : ∀ obj field, field ∈ (sh.objects obj).written → field ∈ (objects obj).written) :
    Later sh { sh with objects := objects } where
  registered := fun _ _ registered => registered
  initialised := fun _ obj done =>
    ⟨sized obj done.1, fun field member => written obj field (done.2 field member)⟩

theorem Good.objects {sh : Shared} (good : Good sh) {objects : Nat → Object}
    (later : Later sh { sh with objects := objects }) : Good { sh with objects := objects } where
  terminated := good.terminated
  unused := good.unused
  behind := fun kind name obj registered linked =>
    (good.behind kind name obj registered linked).imp_left (later.initialised kind obj)

theorem later_setSize (sh : Shared) (obj : Nat) : Later sh (sh.setSize obj) := by
  refine Later.objects ?_ ?_
  · intro other sized
    by_cases same : other = obj <;> simp [same, sized]
  · intro other field member
    by_cases same : other = obj
    · subst same
      simpa using member
    · simpa [same] using member

theorem later_write (sh : Shared) (obj : Nat) (field : Field) : Later sh (sh.write obj field) := by
  refine Later.objects ?_ ?_
  · intro other sized
    by_cases same : other = obj
    · subst same
      simpa using sized
    · simpa [same] using sized
  · intro other kept member
    by_cases same : other = obj
    · subst same
      simp [member]
    · simpa [same] using member

theorem Good.complete {sh : Shared} (good : Good sh) {c : Access} {obj : Nat}
    (owns : sh.Owns c obj) (done : sh.Initialised c.kind obj) : Good (sh.complete c.path) where
  terminated := good.terminated
  unused := good.unused
  behind := by
    intro kind name other registered linked
    by_cases here : kind.shmName name = c.path
    · obtain rfl := kind_of_shmName here
      have linked : sh.space.linked (c.kind.shmName name) = some other := linked
      rw [here, owns] at linked
      exact .inl (Option.some.inj linked ▸ done)
    · refine (good.behind kind name other registered linked).imp_right fun replacing => ?_
      simpa only [Shared.complete, Function.update_of_ne here] using replacing

@[simp] theorem setTable_same (sh : Shared) (kind : Kind) (table : Table) :
    (sh.setTable kind table).tables kind = table := Function.update_self _ _ _

theorem setTable_other (sh : Shared) {kind other : Kind} (table : Table)
    (different : other ≠ kind) : (sh.setTable kind table).tables other = sh.tables other :=
  Function.update_of_ne different _ _

theorem Later.setTable {sh : Shared} {kind : Kind} {table : Table}
    (keeps : ∀ name, (sh.tables kind).Holds name → table.Holds name) :
    Later sh (sh.setTable kind table) where
  registered := by
    intro other name registered
    by_cases same : other = kind
    · subst same
      simpa only [Shared.Registered, setTable_same] using keeps name registered
    · simpa only [Shared.Registered, setTable_other sh table same] using registered
  initialised := fun _ _ done => done

theorem Good.setTable {sh : Shared} (good : Good sh) {kind : Kind} {table : Table}
    (terminated : ∀ i, (cstr (table.slots i).name).length < nameSize)
    (unused : ∀ i : Fin maxTopics, table.count ≤ i.val → table.slots i = .zero)
    (names : ∀ name, table.Holds name → (sh.tables kind).Holds name ∨ sh.Clear kind name) :
    Good (sh.setTable kind table) where
  terminated := by
    intro other i
    by_cases same : other = kind
    · subst same
      simpa using terminated i
    · simpa only [setTable_other sh table same] using good.terminated other i
  unused := by
    intro other i
    by_cases same : other = kind
    · subst same
      simpa using unused i
    · simpa only [setTable_other sh table same] using good.unused other i
  behind := by
    intro other name obj registered linked
    have linked : sh.space.linked (other.shmName name) = some obj := linked
    by_cases same : other = kind
    · subst same
      rw [Shared.Registered, setTable_same] at registered
      rcases names name registered with old | clear
      · exact good.behind other name obj old linked
      · exact .inl (clear obj linked)
    · rw [Shared.Registered, setTable_other sh table same] at registered
      exact good.behind other name obj registered linked

theorem Good.setSlot {sh : Shared} (good : Good sh) {kind : Kind} {idx : Fin maxTopics}
    {slot : TopicInfo} (used : idx.val < (sh.tables kind).count)
    (terminated : (cstr slot.name).length < nameSize)
    (names : ∀ name, Table.Holds { sh.tables kind with
        slots := Function.update (sh.tables kind).slots idx slot } name →
      (sh.tables kind).Holds name ∨ sh.Clear kind name) :
    Good (sh.setTable kind { sh.tables kind with
      slots := Function.update (sh.tables kind).slots idx slot }) := by
  refine good.setTable ?_ ?_ names
  · apply (Function.forall_update_iff (sh.tables kind).slots
      fun _ slot => (cstr slot.name).length < nameSize).mpr
    exact ⟨terminated, fun i _ => good.terminated kind i⟩
  · intro i unused
    have unused : (sh.tables kind).count ≤ i.val := unused
    have elsewhere : i ≠ idx := by
      rintro rfl
      omega
    exact (Function.update_of_ne elsewhere ..).trans (good.unused kind i unused)

theorem holds_update (table : Table) {idx : Fin maxTopics} (slot : TopicInfo)
    (inactive : (table.slots idx).active = false) (name : CString) :
    Table.Holds { table with slots := Function.update table.slots idx slot } name ↔
      table.Holds name ∨ (idx.val < table.count ∧ slot.active = true ∧ storedName slot = name) := by
  constructor
  · rintro ⟨i, used, active, stored⟩
    by_cases here : i = idx
    · subst here
      simp only [Function.update_self] at active stored
      exact .inr ⟨used, active, stored⟩
    · simp only [Function.update_of_ne here] at active stored
      exact .inl ⟨i, used, active, stored⟩
  · rintro (⟨i, used, active, stored⟩ | ⟨used, active, stored⟩)
    · have elsewhere : i ≠ idx := by
        rintro rfl
        exact absurd active (Bool.eq_false_iff.mp inactive)
      exact ⟨i, used, by simpa [elsewhere] using active, by simpa [elsewhere] using stored⟩
    · exact ⟨idx, used, by simpa using active, by simpa using stored⟩

theorem holds_count {table : Table} (room : table.count < maxTopics)
    (zero : table.slots ⟨table.count, room⟩ = .zero) (name : CString) :
    Table.Holds { table with count := table.count + 1 } name ↔ table.Holds name := by
  constructor
  · rintro ⟨i, used, active, stored⟩
    have used : i.val < table.count + 1 := used
    by_cases last : i.val = table.count
    · obtain rfl : i = ⟨table.count, room⟩ := Fin.ext last
      have active : (table.slots ⟨table.count, room⟩).active = true := active
      rw [zero] at active
      exact absurd active (by decide)
    · exact ⟨i, by omega, active, stored⟩
  · rintro ⟨i, used, active, stored⟩
    exact ⟨i, Nat.lt_succ_of_lt used, active, stored⟩

/-! ### One step of one call -/

structure Advances (sh sh' : Shared) (pc pc' : Pc) : Prop where
  good : Good sh'
  later : Later sh sh'
  knows : Knows sh' pc'
  holding : pc'.holding = pc.holding
  outside : pc.holding = false → sh' = sh

theorem Advances.inside {sh sh' : Shared} {pc pc' : Pc} (good : Good sh') (later : Later sh sh')
    (knows : Knows sh' pc') (before : pc.holding = true) (after : pc'.holding = true) :
    Advances sh sh' pc pc' :=
  ⟨good, later, knows, after.trans before.symm, fun outside => nomatch before.symm.trans outside⟩

theorem Advances.move {sh : Shared} {pc pc' : Pc} (good : Good sh) (knows : Knows sh pc')
    (holding : pc'.holding = pc.holding) : Advances sh sh pc pc' :=
  ⟨good, .refl sh, knows, holding, fun _ => rfl⟩

theorem Advances.leave {sh : Shared} {pc : Pc} (good : Good sh) (c : Access)
    (inside : pc.holding = true) : Advances sh sh pc (.leaving c none) :=
  .move good (fun _ none => nomatch none) inside.symm

theorem Advances.giveUp {sh : Shared} {pc : Pc} (good : Good sh) (c : Access)
    (outside : pc.holding = false) : Advances sh sh pc (.returning c none) :=
  .move good (fun _ none => nomatch none) outside.symm

theorem Good.opened {sh : Shared} (good : Good sh) {c : Access} {obj : Nat}
    (registered : sh.Registered c.kind c.name) (settled : sh.replacing c.path = false)
    (linked : sh.space.openExisting c.path = some obj) : sh.Initialised c.kind obj := by
  rcases good.behind c.kind c.name obj registered linked with done | replaced
  · exact done
  · exact absurd replaced (Bool.eq_false_iff.mp settled)

theorem Good.wiped {sh : Shared} (good : Good sh) (fails : Bool) (path : Bytes) :
    Good (if fails then sh else sh.unlink path) ∧
      Later sh (if fails then sh else sh.unlink path) := by
  cases fails with
  | true => exact ⟨good, .refl sh⟩
  | false => exact ⟨good.unlink path, ⟨fun _ _ registered => registered, fun _ _ done => done⟩⟩

theorem Advances.created {sh sh' : Shared} {pc : Pc} {c : Access} {restart : Bool} {obj : Nat}
    (good : Good sh) (inside : pc.holding = true)
    (opened : sh.openExclusive c.kind c.path = some (sh', obj)) :
    Advances sh sh' pc (.sizing c restart obj) := by
  have created := openExclusive_created good opened
  exact .inside created.good created.later created.owns inside rfl

theorem Advances.sized {sh : Shared} {c : Access} {restart : Bool} {obj : Nat} (good : Good sh)
    (knows : Knows sh (.sizing c restart obj)) :
    Advances sh (sh.setSize obj) (.sizing c restart obj) (.mappingNew c restart obj) := by
  have later := later_setSize sh obj
  have sized : ((sh.setSize obj).objects obj).sized = true := by simp [Shared.setSize]
  exact .inside (good.objects later) later ⟨knows, sized⟩ rfl rfl

theorem Knows.write {sh : Shared} {c : Access} {restart : Bool} {obj : Nat} {field : Field}
    {rest : List Field} (knows : Knows sh (.initialising c restart obj (field :: rest))) :
    Knows (sh.write obj field) (.initialising c restart obj rest) := by
  obtain ⟨owns, sized, fields⟩ := knows
  refine ⟨owns, by simp [Shared.write, sized], ?_⟩
  intro other member
  rcases fields other member with old | remaining
  · exact .inl (by simp [Shared.write, old])
  · rcases List.mem_cons.mp remaining with rfl | remaining
    · exact .inl (by simp [Shared.write])
    · exact .inr remaining

theorem Knows.initialised {sh : Shared} {c : Access} {restart : Bool} {obj : Nat}
    (knows : Knows sh (.initialising c restart obj [])) : sh.Initialised c.kind obj :=
  ⟨knows.2.1, fun field member => (knows.2.2 field member).resolve_right List.not_mem_nil⟩

theorem Advances.completed {sh : Shared} {c : Access} {restart : Bool} {obj : Nat} {field : Field}
    {pc' : Pc} (good : Good sh) (knows : Knows sh (.initialising c restart obj [field]))
    (next : Knows ((sh.write obj field).complete c.path) pc') (inside : pc'.holding = true) :
    Advances sh ((sh.write obj field).complete c.path) (.initialising c restart obj [field])
      pc' := by
  have later := later_write sh obj field
  have written := knows.write
  have good : Good (sh.write obj field) := good.objects later
  exact .inside (good.complete written.1 written.initialised)
    ⟨later.registered, later.initialised⟩ next rfl inside

theorem Advances.counted {sh : Shared} {c : Access} {obj : Nat} (good : Good sh)
    (knows : Knows sh (.counting c obj)) (room : (sh.tables c.kind).count < maxTopics) :
    Advances sh
      (sh.setTable c.kind { sh.tables c.kind with count := (sh.tables c.kind).count + 1 })
      (.counting c obj) (.naming c obj ⟨(sh.tables c.kind).count, room⟩) := by
  obtain ⟨owns, done⟩ := knows
  have zero := good.unused c.kind ⟨_, room⟩ (Nat.le_refl _)
  have names := holds_count room zero
  have later := Later.setTable fun name => (names name).mpr
  refine .inside (good.setTable (good.terminated c.kind) ?_ fun name => .inl ∘ (names name).mp)
    later ?_ rfl rfl
  · intro i unused
    have unused : (sh.tables c.kind).count + 1 ≤ i.val := unused
    exact good.unused c.kind i (by omega)
  · refine ⟨owns, done, ?_, ?_⟩
    · simp
    · simpa using zero

theorem storedName_strncpy (name : CString) (active : Bool) :
    (storedName ⟨strncpy TopicInfo.zero.name name.bytes (nameSize - 1), active⟩).bytes =
      name.bytes.take (nameSize - 1) :=
  cstr_strncpy [] name.nulFree rfl

theorem Advances.named {sh : Shared} {c : Access} {obj : Nat} {idx : Fin maxTopics}
    (good : Good sh) (knows : Knows sh (.naming c obj idx)) :
    Advances sh (sh.setTable c.kind { sh.tables c.kind with
        slots := Function.update (sh.tables c.kind).slots idx
          { (sh.tables c.kind).slots idx with
            name := strncpy ((sh.tables c.kind).slots idx).name c.name.bytes (nameSize - 1) } })
      (.naming c obj idx) (.activating c obj idx) := by
  obtain ⟨owns, done, used, zero⟩ := knows
  have stored := storedName_strncpy c.name false
  have inactive : ((sh.tables c.kind).slots idx).active = false := by rw [zero]; rfl
  rw [zero]
  -- the slot is not active yet, so that no name comes with it
  have names := holds_update (sh.tables c.kind)
    ⟨strncpy TopicInfo.zero.name c.name.bytes (nameSize - 1), false⟩ inactive
  simp only [Bool.false_eq_true, false_and, and_false, or_false] at names
  have later := Later.setTable fun name => (names name).mpr
  refine .inside (good.setSlot used ?_ fun name => .inl ∘ (names name).mp) later ?_ rfl rfl
  · refine Nat.lt_of_le_of_lt ?_ (show nameSize - 1 < nameSize by decide)
    exact (congrArg List.length stored).trans_le (List.length_take_le _ _)
  · refine ⟨owns, done, ?_, ?_, fun short => ?_⟩
    · simpa using used
    · simp [TopicInfo.zero]
    · simp only [setTable_same, Function.update_self]
      exact CString.ext (stored.trans (List.take_of_length_le (by omega)))

theorem Advances.activated {sh : Shared} {c : Access} {obj : Nat} {idx : Fin maxTopics}
    (good : Good sh) (knows : Knows sh (.activating c obj idx))
    (clear : nameSize ≤ c.name.bytes.length →
      sh.Clear c.kind (storedName ((sh.tables c.kind).slots idx))) :
    Advances sh (sh.setTable c.kind { sh.tables c.kind with
        slots := Function.update (sh.tables c.kind).slots idx
          { (sh.tables c.kind).slots idx with active := true } })
      (.activating c obj idx) (.leaving c (some obj)) := by
  obtain ⟨owns, done, used, inactive, stored⟩ := knows
  have names := holds_update (sh.tables c.kind)
    { (sh.tables c.kind).slots idx with active := true } inactive
  have later := Later.setTable fun name holds => (names name).mpr (.inl holds)
  refine .inside (good.setSlot used (good.terminated c.kind idx) ?_) later
    (by rintro _ ⟨⟩; exact done) rfl rfl
  intro name holds
  rcases (names name).mp holds with old | ⟨_, _, new⟩
  · exact .inl old
  · obtain rfl := new
    refine .inr ?_
    rcases Nat.lt_or_ge c.name.bytes.length nameSize with short | long
    · -- the new name is that of the call, and its object is ready
      intro other linked
      have linked : sh.space.linked (c.kind.shmName (storedName
          ((sh.tables c.kind).slots idx))) = some other := linked
      rw [stored short] at linked
      exact Option.some.inj (owns.symm.trans linked) ▸ done
    · exact clear long

theorem Moves.advances {sh sh' : Shared} {pc pc' : Pc} (moves : Moves sh pc sh' pc')
    (good : Good sh) (knows : Knows sh pc)
    (settled : ∀ c, pc = .opening c → sh.replacing c.path = false)
    (clear : ∀ c obj idx, pc = .activating c obj idx → nameSize ≤ c.name.bytes.length →
      sh.Clear c.kind (storedName ((sh.tables c.kind).slots idx))) : Advances sh sh' pc pc' := by
  cases moves with
  | restarts => exact .move good trivial rfl
  | finds found => exact .move good (find_registered good found) rfl
  | starts | orphaned => exact .move good trivial rfl
  | refuses | uncreated | gone | unsized | unmappedNew => exact .leave good _ rfl
  | misses | unmapped | unjoined => exact .giveUp good _ rfl
  | opens linked => exact .move good (good.opened knows (settled _ rfl) linked) rfl
  | joins => exact .move good knows rfl
  | maps | joined => exact .move good (by rintro _ ⟨⟩; exact knows) rfl
  | @wipes c fails =>
    obtain ⟨good, later⟩ := good.wiped fails c.path
    exact .inside good later trivial rfl rfl
  | @reclaims c fails =>
    obtain ⟨good, later⟩ := good.wiped fails c.path
    exact .inside good later trivial rfl rfl
  | creates opened | retries opened => exact .created good rfl opened
  | sizes => exact .sized good knows
  | mapsNew =>
    obtain ⟨owns, sized⟩ := knows
    exact .move good ⟨owns, sized, fun _ member => .inr member⟩ rfl
  | @initialises c restart obj field rest more =>
    have later := later_write sh obj field
    exact .inside (good.objects later) later knows.write rfl rfl
  | replaced =>
    have done := knows.write.initialised
    exact .completed good knows (by rintro _ ⟨⟩; exact done) rfl
  | completed =>
    have written := knows.write
    exact .completed good knows ⟨written.1, written.initialised⟩ rfl
  | counts room => exact .counted good knows room
  | names => exact .named good knows
  | activates => exact .activated good knows (clear _ _ _ rfl)

theorem Knows.later {sh sh' : Shared} {pc : Pc} (knows : Knows sh pc) (later : Later sh sh')
    (outside : pc.holding = false) : Knows sh' pc := by
  cases pc with
  | idle | locking => trivial
  | opening c => exact later.registered c.kind c.name knows
  | mapping c obj => exact later.initialised c.kind obj knows
  | joining c obj => exact later.initialised c.kind obj knows
  | returning c result =>
    exact fun obj member => later.initialised c.kind obj (knows obj member)
  | _ => exact nomatch outside

end ComIpc.SystemManager.Steps
