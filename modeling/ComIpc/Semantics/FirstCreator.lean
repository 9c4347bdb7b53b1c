import ComIpc.Semantics.Machine

/-! A shared object that the first of several processes creates and initialises in place.

The name of the object is public from its exclusive creation on, and nothing tells the
others when its initialisation is over. Each write of the creator may undo what the uses
have done to the part that it initialises; uses that come after that write are safe.
-/

set_option autoImplicit false

namespace ComIpc.Semantics.FirstCreator

inductive Phase where
  | start
  /-- The exclusive creation failed; the object is to be opened as it is. -/
  | refused
  | created
  | opened (first : Bool)
  | writing (count : Nat)
  | ready
  /-- An exception, or an access to an object that has no size yet. -/
  | failed
  deriving DecidableEq, Repr

def Phase.progress : Phase → Option Nat
  | .created | .opened true => some 0
  | .writing count => some count
  | _ => none

/-- The constructor and what its object is used for. A use is one access of one process; it has
no result where the process has to wait, or is not at that point. -/
structure Component (P Content Use : Type) where
  zeroed : Content
  writes : List (Content → Content)
  apply : Content → P → Use → Option Content
  /-- Whether an exclusive creation that fails for another reason than an existing object is
  followed by an attempt to open one. -/
  retries : Bool

structure SharedObject (Content : Type) where
  sized : Bool
  content : Content

/-- `uses` and `written` are ghosts: all uses so far, and the writes of the creator. -/
structure State (P Content Use : Type) where
  object : Option (SharedObject Content)
  phases : P → Phase
  uses : List (P × Use)
  written : Nat

inductive Event (P Use : Type) where
  | openExclusive (p : P) (fails : Bool)
  | ftruncate (p : P) (fails : Bool)
  | openExisting (p : P) (fails : Bool)
  | mmap (p : P) (fails : Bool)
  | write (p : P)
  | use (p : P) (use : Use)

section
variable {P Content Use : Type} [DecidableEq P] (component : Component P Content Use)

def State.goto (s : State P Content Use) (p : P) (phase : Phase) : State P Content Use :=
  { s with phases := Function.update s.phases p phase }

def next (s : State P Content Use) : Event P Use → Option (State P Content Use)
  | .openExclusive p fails => do
    guard (s.phases p = .start)
    if fails then some (s.goto p (if component.retries then .refused else .failed))
    else
      match s.object with
      | some _ => some (s.goto p .refused)
      | none =>
        some (State.goto { s with object := some ⟨false, component.zeroed⟩ } p .created)
  | .ftruncate p fails => do
    guard (s.phases p = .created)
    let object ← s.object
    -- a failure is reported and the constructor goes on
    some (State.goto { s with object := some { object with sized := object.sized || !fails } } p
      (.opened true))
  | .openExisting p fails => do
    guard (s.phases p = .refused)
    if fails ∨ s.object.isNone then some (s.goto p .failed) else some (s.goto p (.opened false))
  | .mmap p fails => do
    match s.phases p with
    | .opened first =>
      if fails then some (s.goto p .failed)
      else some (s.goto p (if first then .writing 0 else .ready))
    | _ => none
  | .write p => do
    match s.phases p with
    | .writing count => do
      let object ← s.object
      let write ← component.writes[count]?
      if object.sized then
        some (State.goto { s with
          object := some { object with content := write object.content }
          written := count + 1 } p
          (if count + 1 < component.writes.length then .writing (count + 1) else .ready))
      else some (s.goto p .failed)
    | _ => none
  | .use p use => do
    guard (s.phases p = .ready)
    let object ← s.object
    if object.sized then
      let content ← component.apply object.content p use
      some { s with
        object := some { object with content := content }
        uses := s.uses ++ [(p, use)] }
    else some (s.goto p .failed)

def State.init : State P Content Use := ⟨none, fun _ => .start, [], 0⟩

def machine : Machine (State P Content Use) (Event P Use) where
  initial := fun s => s = .init
  next := next component

/-- The uses of a new object, without any constructor. -/
def alone : Machine Content (P × Use) where
  initial := fun content => content = component.zeroed
  next := fun content step => component.apply content step.1 step.2

omit [DecidableEq P] in
theorem alone_used {uses : List (P × Use)} {p : P} {use : Use} {before after : Content}
    (made : (alone component).run component.zeroed uses = some before)
    (applied : component.apply before p use = some after) :
    (alone component).run component.zeroed (uses ++ [(p, use)]) = some after := by
  rw [Machine.run_append, made, Option.bind_some, Machine.run]
  exact Option.bind_eq_some_iff.mpr ⟨after, applied, rfl⟩

/-- A use comes after as many writes as it needs. -/
def Ordered (needed : Content → P → Use → Nat) (s : State P Content Use) : Event P Use → Prop
  | .use p use => ∀ object ∈ s.object, needed object.content p use ≤ s.written
  | _ => True

instance (needed : Content → P → Use → Nat) (s : State P Content Use) (e : Event P Use) :
    Decidable (Ordered needed s e) :=
  match e with
  | .use _ _ => inferInstanceAs (Decidable (∀ object ∈ s.object, _ ≤ s.written))
  | .openExclusive _ _ | .ftruncate _ _ | .openExisting _ _ | .mmap _ _ | .write _ =>
    isTrue trivial

/-- Contents that the remaining writes leave as they are: `clean n` is kept by the uses that
need at most `n` writes. -/
structure Harmless (needed : Content → P → Use → Nat) (clean : Nat → Content → Prop) : Prop where
  zeroed : clean 0 component.zeroed
  used : ∀ count content p use after, clean count content → needed content p use ≤ count →
    component.apply content p use = some after → clean count after
  wrote : ∀ count content write, clean count content → component.writes[count]? = some write →
    write content = content ∧ clean (count + 1) content

/-- There is at most one creator, and the object is what the uses have made of it. -/
structure Intact (clean : Nat → Content → Prop) (s : State P Content Use) : Prop where
  progress : ∀ p count, (s.phases p).progress = some count → count = s.written
  unique : ∀ p q, (s.phases p).progress.isSome → (s.phases q).progress.isSome → p = q
  absent : s.object = none → s.uses = [] ∧ s.written = 0 ∧ ∀ p, (s.phases p).progress = none
  clean : ∀ object ∈ s.object, clean s.written object.content
  content : ∀ object ∈ s.object,
    (alone component).run component.zeroed s.uses = some object.content

section
variable {component} {needed : Content → P → Use → Nat} {clean : Nat → Content → Prop}
  {s : State P Content Use}

theorem progress_goto {p q : P} {phase : Phase} {count : Nat}
    (kept : ∀ count, phase.progress = some count → (s.phases p).progress = some count)
    (at_ : (Function.update s.phases p phase q).progress = some count) :
    (s.phases q).progress = some count := by
  by_cases self : q = p
  · subst self
    rw [Function.update_self] at at_
    exact kept count at_
  · rwa [Function.update_of_ne self] at at_

theorem former {before after : Option (SharedObject Content)}
    (same : after.map SharedObject.content = before.map SharedObject.content)
    {object : SharedObject Content} (member : object ∈ after) :
    ∃ old ∈ before, old.content = object.content :=
  Option.map_eq_some_iff.mp (same ▸ Option.map_eq_some_iff.mpr ⟨object, member, rfl⟩)

theorem Intact.moved (intact : Intact component clean s) (p : P) {phase : Phase}
    {object : Option (SharedObject Content)}
    (kept : ∀ count, phase.progress = some count → (s.phases p).progress = some count)
    (same : object.map SharedObject.content = s.object.map SharedObject.content) :
    Intact component clean (State.goto { s with object := object } p phase) where
  progress := fun q count at_ => intact.progress q count (progress_goto kept at_)
  unique := by
    intro q r first second
    obtain ⟨m, first⟩ := Option.isSome_iff_exists.mp first
    obtain ⟨n, second⟩ := Option.isSome_iff_exists.mp second
    exact intact.unique q r (progress_goto kept first ▸ rfl) (progress_goto kept second ▸ rfl)
  absent := by
    intro none
    have none : object = .none := none
    rw [none, Option.map_none, eq_comm, Option.map_eq_none_iff] at same
    obtain ⟨uses, written, nobody⟩ := intact.absent same
    refine ⟨uses, written, fun q => ?_⟩
    cases at_ : (Function.update s.phases p phase q).progress with
    | none => exact at_
    | some count =>
      have before := progress_goto kept at_
      rw [nobody q] at before
      contradiction
  clean := by
    intro o member
    obtain ⟨old, found, content⟩ := former same member
    exact content ▸ intact.clean old found
  content := by
    intro o member
    obtain ⟨old, found, content⟩ := former same member
    exact content ▸ intact.content old found

theorem Intact.created (intact : Intact component clean s)
    (harmless : Harmless component needed clean) (p : P) (none : s.object = none) :
    Intact component clean
      (State.goto { s with object := some ⟨false, component.zeroed⟩ } p .created) := by
  obtain ⟨uses, written, nobody⟩ := intact.absent none
  have alone : ∀ q, (Function.update s.phases p .created q).progress.isSome → q = p := by
    intro q creates
    by_contra other
    simp [other, nobody q] at creates
  constructor
  · intro q count at_
    obtain rfl : q = p := alone q (at_ ▸ rfl)
    simp only [State.goto, Function.update_self, Phase.progress, Option.some.injEq] at at_
    exact at_.symm.trans written.symm
  · exact fun q r first second => (alone q first).trans (alone r second).symm
  · exact fun absent => nomatch absent
  · intro o member
    obtain rfl := Option.some.inj member
    simp only [State.goto, written]
    exact harmless.zeroed
  · intro o member
    obtain rfl := Option.some.inj member
    simp only [State.goto, uses]
    rfl

theorem Intact.wrote (intact : Intact component clean s)
    (harmless : Harmless component needed clean) {p : P} {count : Nat}
    {object : SharedObject Content} {write : Content → Content}
    (writing : s.phases p = .writing count) (found : s.object = some object)
    (next_ : component.writes[count]? = some write) :
    Intact component clean (State.goto { s with
      object := some { object with content := write object.content }
      written := count + 1 } p
      (if count + 1 < component.writes.length then .writing (count + 1) else .ready)) := by
  have at_ : (s.phases p).progress = some count := by rw [writing]; rfl
  have current : count = s.written := intact.progress p count at_
  obtain ⟨unchanged, ready⟩ :=
    harmless.wrote count object.content write (current ▸ intact.clean object found) next_
  have others : ∀ q, q ≠ p → (s.phases q).progress = none := by
    intro q other
    by_contra creates
    exact other (intact.unique q p (Option.isSome_iff_ne_none.mpr creates) (at_ ▸ rfl))
  have alone : ∀ q phase, (Function.update s.phases p phase q).progress.isSome → q = p := by
    intro q phase creates
    by_contra other
    simp [other, others q other] at creates
  constructor
  · intro q m progress
    obtain rfl : q = p := alone q _ (Option.isSome_iff_exists.mpr ⟨m, progress⟩)
    simp only [State.goto, Function.update_self] at progress ⊢
    split at progress
    · exact (Option.some.inj progress).symm
    · contradiction
  · exact fun q r first second => (alone q _ first).trans (alone r _ second).symm
  · exact fun absent => nomatch absent
  · intro o member
    obtain rfl := Option.some.inj member
    simp only [State.goto, unchanged]
    exact ready
  · intro o member
    obtain rfl := Option.some.inj member
    simp only [State.goto, unchanged]
    exact intact.content object found

omit [DecidableEq P] in
theorem Intact.used (intact : Intact component clean s)
    (harmless : Harmless component needed clean) {p : P} {use : Use}
    {object : SharedObject Content} {content : Content} (found : s.object = some object)
    (applied : component.apply object.content p use = some content)
    (ordered : needed object.content p use ≤ s.written) :
    Intact component clean { s with
      object := some { object with content := content }
      uses := s.uses ++ [(p, use)] } := by
  constructor
  · exact intact.progress
  · exact intact.unique
  · exact fun absent => nomatch absent
  · intro o member
    obtain rfl := Option.some.inj member
    exact harmless.used _ _ p use content (intact.clean object found) ordered applied
  · intro o member
    obtain rfl := Option.some.inj member
    exact alone_used component (intact.content object found) applied

end

inductive Step (s : State P Content Use) : Event P Use → State P Content Use → Prop where
  | moved {e : Event P Use} (p : P) {phase : Phase} {object : Option (SharedObject Content)} :
      (∀ count, phase.progress = some count → (s.phases p).progress = some count) →
      object.map SharedObject.content = s.object.map SharedObject.content →
      Step s e (State.goto { s with object := object } p phase)
  | created {e : Event P Use} (p : P) : s.object = none →
      Step s e (State.goto { s with object := some ⟨false, component.zeroed⟩ } p .created)
  | wrote {e : Event P Use} {p : P} {count : Nat} {object : SharedObject Content}
      {write : Content → Content} : s.phases p = .writing count → s.object = some object →
      component.writes[count]? = some write → Step s e (State.goto { s with
        object := some { object with content := write object.content }
        written := count + 1 } p
        (if count + 1 < component.writes.length then .writing (count + 1) else .ready))
  | used {p : P} {use : Use} {object : SharedObject Content} {content : Content} :
      s.object = some object → component.apply object.content p use = some content →
      Step s (.use p use) { s with
        object := some { object with content := content }
        uses := s.uses ++ [(p, use)] }

theorem next_step {s t : State P Content Use} {e : Event P Use}
    (taken : next component s e = some t) : Step component s e t := by
  have leave {e : Event P Use} (p : P) {phase : Phase} (none : phase.progress = none) :
      Step component s e (s.goto p phase) :=
    .moved p (fun count at_ => by simp [none] at at_) rfl
  cases e with
  | openExclusive p fails =>
    simp only [next, Option.bind_eq_bind, Option.bind_eq_some_iff] at taken
    obtain ⟨_, _, taken⟩ := taken
    split at taken
    · obtain rfl := Option.some.inj taken
      exact leave p (by split <;> rfl)
    · split at taken
      · obtain rfl := Option.some.inj taken
        exact leave p rfl
      · rename_i none
        obtain rfl := Option.some.inj taken
        exact .created p none
  | ftruncate p fails =>
    simp only [next, Option.bind_eq_bind, Option.bind_eq_some_iff, guard_passed,
      Option.some.injEq] at taken
    obtain ⟨_, created, object, found, rfl⟩ := taken
    refine .moved p (fun count at_ => ?_) (by rw [found]; rfl)
    rw [created]
    exact at_
  | openExisting p fails =>
    simp only [next, Option.bind_eq_bind, Option.bind_eq_some_iff] at taken
    obtain ⟨_, _, taken⟩ := taken
    split at taken <;> obtain rfl := Option.some.inj taken
    · exact leave p rfl
    · exact leave p rfl
  | mmap p fails =>
    simp only [next] at taken
    split at taken
    · rename_i first opened
      split at taken <;> obtain rfl := Option.some.inj taken
      · exact leave p rfl
      · cases first with
        | false => exact leave p rfl
        | true => exact .moved p (fun count at_ => by rw [opened]; exact at_) rfl
    · contradiction
  | write p =>
    simp only [next] at taken
    split at taken
    · rename_i count writing
      simp only [Option.bind_eq_bind, Option.bind_eq_some_iff] at taken
      obtain ⟨object, found, write, next_, taken⟩ := taken
      split at taken <;> obtain rfl := Option.some.inj taken
      · exact .wrote writing found next_
      · exact leave p rfl
    · contradiction
  | use p use =>
    simp only [next, Option.bind_eq_bind, Option.bind_eq_some_iff] at taken
    obtain ⟨_, _, object, found, taken⟩ := taken
    split at taken
    · obtain ⟨content, applied, taken⟩ := Option.bind_eq_some_iff.mp taken
      obtain rfl := Option.some.inj taken
      exact .used found applied
    · obtain rfl := Option.some.inj taken
      exact leave p rfl

variable {needed : Content → P → Use → Nat} {clean : Nat → Content → Prop}

theorem next_intact (harmless : Harmless component needed clean)
    {s t : State P Content Use} {e : Event P Use} (intact : Intact component clean s)
    (ordered : Ordered needed s e) (taken : next component s e = some t) :
    Intact component clean t := by
  cases next_step component taken with
  | moved p kept same => exact intact.moved p kept same
  | created p none => exact intact.created harmless p none
  | wrote writing found next_ => exact intact.wrote harmless writing found next_
  | used found applied => exact intact.used harmless found applied (ordered _ found)

omit [DecidableEq P] in
theorem init_intact : Intact component clean (.init : State P Content Use) := by
  constructor <;> simp [State.init, Phase.progress]

theorem reachable_intact (harmless : Harmless component needed clean)
    {s : State P Content Use}
    (reach : (machine component).ReachableWhen (Ordered needed) s) :
    Intact component clean s := by
  refine reach.invariant (Intact component clean) ?_ fun s e t intact ordered taken =>
    next_intact component harmless intact ordered taken
  rintro s rfl
  exact init_intact component

/-- The object stays; a step of an ordered run leaves its content alone or is one use. -/
theorem Intact.step (harmless : Harmless component needed clean)
    {s t : State P Content Use} {e : Event P Use} (intact : Intact component clean s)
    (taken : next component s e = some t) :
    ∀ object ∈ s.object, ∃ after ∈ t.object,
      (t.uses = s.uses ∧ after.content = object.content) ∨
      ∃ p use, e = .use p use ∧ t.uses = s.uses ++ [(p, use)] ∧
        component.apply object.content p use = some after.content := by
  intro object found
  have found : s.object = some object := found
  cases next_step component taken with
  | moved p _ same =>
    obtain ⟨after, member, content⟩ := former same.symm found
    exact ⟨after, member, .inl ⟨rfl, content⟩⟩
  | created p none =>
    rw [none] at found
    contradiction
  | @wrote e p count other write writing here next_ =>
    obtain rfl := Option.some.inj (found.symm.trans here)
    have current : count = s.written := intact.progress p count (by rw [writing]; rfl)
    obtain ⟨unchanged, _⟩ :=
      harmless.wrote count object.content write (current ▸ intact.clean object found) next_
    exact ⟨_, rfl, .inl ⟨rfl, unchanged⟩⟩
  | @used p use other content here applied =>
    obtain rfl := Option.some.inj (found.symm.trans here)
    exact ⟨_, rfl, .inr ⟨p, use, rfl, rfl, applied⟩⟩

end

end ComIpc.Semantics.FirstCreator
