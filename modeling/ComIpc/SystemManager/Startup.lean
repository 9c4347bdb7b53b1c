import ComIpc.MemoryPool.Steps
import ComIpc.Semantics.FirstCreator
import ComIpc.SystemManager.Entries

/-! Processes that start at the same time.

The constructors of `SystemManager` and of `MemoryPool` follow one pattern: whoever
creates the object sizes it, initialises its mutex and zeroes its counters, while every
other process opens it and goes on. Registrations and allocations take the steps that they
take elsewhere, so a lock may be held while it is initialised. A mutex in a zero-filled
object can be locked like any other.
-/

set_option autoImplicit false

namespace ComIpc.SystemManager

open Semantics

namespace Steps

def Pc.locked : Pc → Option Kind
  | .idle | .locking _ => none
  | .looking c | .releasing c | .opening c | .mapping c _ | .joining c _ | .wiping c
  | .creating c _ | .reclaiming c | .retrying c | .sizing c _ _ | .mappingNew c _ _
  | .initialising c _ _ _ | .counting c _ | .naming c _ _ | .activating c _ _
  | .leaving c _ | .returning c _ => some c.kind

theorem Moves.locked {sh sh' : Shared} {pc pc' : Pc} (moves : Moves sh pc sh' pc') :
    pc'.locked = pc.locked := by
  cases moves <;> rfl

theorem Moves.otherTable {sh sh' : Shared} {pc pc' : Pc} (moves : Moves sh pc sh' pc')
    {kind : Kind} (other : pc.locked ≠ some kind) : sh'.tables kind = sh.tables kind := by
  cases moves with
  | counts | names | activates =>
    exact Function.update_of_ne (fun same => other (congrArg some same.symm)) _ _
  | creates opened | retries opened => rw [Shared.openExclusive_tables opened]
  | wipes fails | reclaims fails => cases fails <;> rfl
  | _ => rfl

theorem Moves.count_le {sh sh' : Shared} {pc pc' : Pc} (moves : Moves sh pc sh' pc')
    (kind : Kind) : (sh.tables kind).count ≤ (sh'.tables kind).count := by
  by_cases other : pc.locked = some kind
  · cases moves with
    | counts =>
      obtain rfl := Option.some.inj other
      simp [Shared.setTable]
    | names | activates =>
      obtain rfl := Option.some.inj other
      simp [Shared.setTable]
    | creates opened | retries opened => rw [Shared.openExclusive_tables opened]
    | wipes fails | reclaims fails => cases fails <;> exact Nat.le_refl _
    | _ => exact Nat.le_refl _
  · rw [moves.otherTable other]

section
variable {P : Type} [DecidableEq P]

theorem Step.count_le {s t : State P} {e : Event P} (step : Step s e t) (kind : Kind) :
    (s.shared.tables kind).count ≤ (t.shared.tables kind).count := by
  cases step with
  | moved moves => exact moves.count_le kind
  | _ => exact Nat.le_refl _

/-- Nothing was entered in a table, and nobody has locked the mutex to do so. -/
structure Untouched (kind : Kind) (s : State P) : Prop where
  empty : (s.shared.tables kind).count = 0
  outside : ∀ p, (s.pcs p).locked ≠ some kind

theorem Untouched.goto {kind : Kind} {s : State P} (untouched : Untouched kind s) (p : P) {pc : Pc}
    {mutex : RobustMutex} {shared : Shared} {returned : List (Access × Nat)}
    (same : shared.tables kind = s.shared.tables kind) (outside : pc.locked ≠ some kind) :
    Untouched kind (State.goto ⟨mutex, shared, s.pcs, returned⟩ p pc) where
  empty := same ▸ untouched.empty
  outside := (Function.forall_update_iff s.pcs fun _ pc => pc.locked ≠ some kind).mpr
    ⟨outside, fun q _ => untouched.outside q⟩

theorem Untouched.step {kind : Kind} {s t : State P} {e : Event P} (untouched : Untouched kind s)
    (step : Step s e t)
    (elsewhere : ∀ p c fails, e = .step p fails → s.pcs p = .locking c → c.kind ≠ kind) :
    Untouched kind t := by
  cases step with
  | called | died => exact untouched.goto _ rfl (by simp [Pc.locked])
  | @locked p c fails here usable =>
    refine untouched.goto _ rfl fun same => elsewhere p c fails rfl here ?_
    exact Option.some.inj same
  | @released p c fails here =>
    have outside := untouched.outside p
    rw [here] at outside
    exact untouched.goto p rfl outside
  | @left p c result fails here =>
    have outside := untouched.outside p
    rw [here] at outside
    exact untouched.goto p rfl outside
  | returned => exact untouched.goto _ rfl (by simp [Pc.locked])
  | @moved p fails shared pc moves =>
    have outside := untouched.outside p
    exact untouched.goto p (moves.otherTable outside) (moves.locked ▸ outside)

end

end Steps

/-! ### The manager object -/

/-- What is under the names of topics and services before the registry exists. -/
structure Leftovers where
  space : ShmSpace Bytes
  objects : Nat → Steps.Object
  empty : ∀ obj, space.count ≤ obj → objects obj = .empty

def Leftovers.none : Leftovers := ⟨.empty, fun _ => .empty, fun _ _ => rfl⟩

def Leftovers.zeroed (P : Type) (left : Leftovers) : Steps.State P :=
  ⟨.unlocked, ⟨fun _ => .init, left.space, left.objects, fun _ => false⟩, fun _ => .idle, []⟩

/-- One access of a call of `createOrGetTopic` or `createOrGetService`. -/
inductive Registration where
  | call (c : Steps.Access)
  | step (fails : Bool)
  deriving DecidableEq

def Registration.event {P : Type} (p : P) : Registration → Steps.Event P
  | .call c => .call p c
  | .step fails => .step p fails

def zeroCount (kind : Steps.Kind) {P : Type} (s : Steps.State P) : Steps.State P :=
  { s with shared := s.shared.setTable kind { s.shared.tables kind with count := 0 } }

section
variable {P : Type} [DecidableEq P] {left : Leftovers}

/-- The constructor of `SystemManager`: the mutex, `topic_count`, `service_count`. -/
def managerComponent (P : Type) [DecidableEq P] (left : Leftovers) :
    FirstCreator.Component P (Steps.State P) Registration where
  zeroed := left.zeroed P
  writes := [fun s => { s with mutex := .unlocked }, zeroCount .topic, zeroCount .service]
  apply := fun s p use => Steps.next s (use.event p)
  retries := false

/-- The writes of the constructor that the table depends on. -/
def Steps.Kind.writes : Steps.Kind → Nat
  | .topic => 2
  | .service => 3

def registrationNeeds (s : Steps.State P) (p : P) : Registration → Nat
  | .call _ => 0
  | .step _ =>
    match s.pcs p with
    | .locking c => c.kind.writes
    | _ => 0

theorem zeroed_initial : (Steps.calls P).initial (left.zeroed P) :=
  ⟨rfl, rfl, left.empty, rfl, rfl, rfl⟩

/-- After so many writes: what the others write is still as the object was created. -/
structure CleanManager (count : Nat) (s : Steps.State P) : Prop where
  reachable : (Steps.calls P).Reachable s
  free : count < 1 → s.mutex = .unlocked
  untouched : ∀ kind : Steps.Kind, count < kind.writes → Steps.Untouched kind s

theorem CleanManager.zeroCount {count : Nat} {s : Steps.State P} (clean : CleanManager count s)
    {kind : Steps.Kind} (later : count < kind.writes) : zeroCount kind s = s := by
  have empty := (clean.untouched kind later).empty
  have same : ({ s.shared.tables kind with count := 0 } : Steps.Table) = s.shared.tables kind := by
    rw [← empty]
  rw [SystemManager.zeroCount, Steps.Shared.setTable, same, Function.update_eq_self]

theorem CleanManager.more {count : Nat} {s : Steps.State P} (clean : CleanManager count s) :
    CleanManager (count + 1) s where
  reachable := clean.reachable
  free := fun later => clean.free (Nat.lt_of_succ_lt later)
  untouched := fun kind later => clean.untouched kind (Nat.lt_of_succ_lt later)

theorem CleanManager.stays_free {s t : Steps.State P} {e : Steps.Event P}
    (clean : CleanManager 0 s) (step : Steps.Step s e t)
    (unlocked : ∀ p c fails, e = .step p fails → s.pcs p ≠ .locking c) : t.mutex = .unlocked := by
  have outside : ∀ p kind, (s.pcs p).locked ≠ some kind := by
    intro p kind
    exact (clean.untouched kind (by cases kind <;> decide)).outside p
  have free := clean.free Nat.zero_lt_one
  cases step with
  | called | returned | moved => exact free
  | @locked p c fails here => exact absurd here (unlocked p c fails rfl)
  | @released p c fails here => exact absurd (by rw [here]; rfl) (outside p c.kind)
  | @left p c result fails here => exact absurd (by rw [here]; rfl) (outside p c.kind)
  | @died p =>
    cases holding : (s.pcs p).holding with
    | false => simpa [Steps.State.goto] using free
    | true => simp [Steps.State.goto, free, RobustMutex.ownerDies]

theorem CleanManager.used {count : Nat} {s t : Steps.State P} {p : P} {use : Registration}
    (clean : CleanManager count s) (needs : registrationNeeds s p use ≤ count)
    (taken : Steps.next s (use.event p) = some t) : CleanManager count t := by
  have step := Steps.next_step taken
  have locks : ∀ q c fails, use.event p = .step q fails → s.pcs q = .locking c →
      c.kind.writes ≤ count := by
    intro q c fails same here
    cases use with
    | call other => contradiction
    | step other =>
      obtain ⟨rfl, rfl⟩ := Steps.Event.step.inj same
      simpa [registrationNeeds, here] using needs
  constructor
  · exact clean.reachable.step trivial taken
  · intro none
    obtain rfl : count = 0 := Nat.lt_one_iff.mp none
    refine clean.stays_free step fun q c fails same here => ?_
    have few := locks q c fails same here
    cases kind : c.kind <;> simp [kind, Steps.Kind.writes] at few
  · intro kind later
    refine (clean.untouched kind later).step step ?_
    rintro q c fails same here rfl
    exact absurd (locks q c fails same here) (Nat.not_le.mpr later)

theorem manager_harmless :
    FirstCreator.Harmless (managerComponent P left) registrationNeeds CleanManager where
  zeroed := ⟨.start zeroed_initial, fun _ => rfl,
    fun kind _ => ⟨rfl, fun _ => (Option.some_ne_none kind).symm⟩⟩
  used := fun _ _ _ _ _ clean needs taken => clean.used needs taken
  wrote := by
    intro count s write clean found
    refine ⟨?_, clean.more⟩
    match count, found with
    | 0, found =>
      obtain rfl := Option.some.inj found
      simp only [← clean.free Nat.zero_lt_one]
    | 1, found =>
      obtain rfl := Option.some.inj found
      exact clean.zeroCount (Nat.lt_succ_self 1)
    | 2, found =>
      obtain rfl := Option.some.inj found
      exact clean.zeroCount (Nat.lt_succ_self 2)

end

/-! ### The pool object -/

section
variable {P : Type} [DecidableEq P]

/-- The constructor of `MemoryPool`: the mutex and `head_offset`. -/
def poolComponent (P : Type) [DecidableEq P] :
    FirstCreator.Component P (MemoryPool.Steps.State P) MemoryPool.Steps.Use where
  zeroed := ⟨.unlocked, .init, fun _ => .idle⟩
  writes := [fun s => { s with mutex := .unlocked },
    fun s => { s with pool := { s.pool with headOffset := 0 } }]
  apply := MemoryPool.Steps.next
  retries := true

def allocationNeeds (s : MemoryPool.Steps.State P) (p : P) : MemoryPool.Steps.Use → Nat
  | .call _ => 0
  | .step =>
    match s.pcs p with
    | .locking _ => 2
    | _ => 0

structure UntouchedPool (s : MemoryPool.Steps.State P) : Prop where
  free : s.mutex = .unlocked
  zero : s.pool.headOffset = 0
  outside : ∀ p, (s.pcs p).locked = false

theorem UntouchedPool.used {s t : MemoryPool.Steps.State P} {p : P} {use : MemoryPool.Steps.Use}
    (untouched : UntouchedPool s) (needs : allocationNeeds s p use < 2)
    (taken : MemoryPool.Steps.next s p use = some t) : UntouchedPool t := by
  cases use with
  | call size =>
    simp only [MemoryPool.Steps.next, Option.bind_eq_bind, Option.bind_eq_some_iff,
      Option.some.injEq] at taken
    obtain ⟨_, _, taken⟩ := taken
    split at taken
    · exact taken ▸ untouched
    · obtain rfl := taken
      refine ⟨untouched.free, untouched.zero, ?_⟩
      apply (Function.forall_update_iff s.pcs fun _ pc => pc.locked = false).mpr
      exact ⟨rfl, fun q _ => untouched.outside q⟩
  | step =>
    have outside := untouched.outside p
    cases here : s.pcs p with
    | idle => simp [MemoryPool.Steps.next, here] at taken
    | locking size => simp [allocationNeeds, here] at needs
    | reading | storing | unlocking => simp [here, MemoryPool.Steps.Pc.locked] at outside

theorem pool_harmless : FirstCreator.Harmless (poolComponent P) allocationNeeds
    (fun count s => count < 2 → UntouchedPool s) where
  zeroed := fun _ => ⟨rfl, rfl, fun _ => rfl⟩
  used := fun _ _ _ _ _ clean needs taken early =>
    (clean early).used (Nat.lt_of_le_of_lt needs early) taken
  wrote := by
    intro count s write clean found
    refine ⟨?_, fun early => clean (Nat.lt_of_succ_lt early)⟩
    match count, found with
    | 0, found =>
      obtain rfl := Option.some.inj found
      simp only [← (clean Nat.zero_lt_two).free]
    | 1, found =>
      obtain rfl := Option.some.inj found
      simp only [← (clean Nat.one_lt_two).zero]

end

/-! ### Both constructors in every process -/

structure Startup (P : Type) where
  manager : FirstCreator.State P (Steps.State P) Registration
  pool : FirstCreator.State P (MemoryPool.Steps.State P) MemoryPool.Steps.Use

inductive StartupEvent (P : Type) where
  | manager (e : FirstCreator.Event P Registration)
  | pool (e : FirstCreator.Event P MemoryPool.Steps.Use)

section
variable {P : Type} [DecidableEq P] {left : Leftovers}

def nextStartup (left : Leftovers) (s : Startup P) : StartupEvent P → Option (Startup P)
  | .manager e =>
    (FirstCreator.next (managerComponent P left) s.manager e).map fun manager =>
      { s with manager := manager }
  | .pool e =>
    (FirstCreator.next (poolComponent P) s.pool e).map fun pool => { s with pool := pool }

def startups (P : Type) [DecidableEq P] (left : Leftovers) :
    Machine (Startup P) (StartupEvent P) where
  initial := fun s => s = ⟨.init, .init⟩
  next := nextStartup left

/-- Nobody locks a mutex for a topic, a service or a block before the creator of the object has
initialised the mutex and written its zero to the counter concerned. -/
def Initialised (s : Startup P) : StartupEvent P → Prop
  | .manager e => FirstCreator.Ordered registrationNeeds s.manager e
  | .pool e => FirstCreator.Ordered allocationNeeds s.pool e

instance (s : Startup P) (e : StartupEvent P) : Decidable (Initialised s e) :=
  match e with
  | .manager e => inferInstanceAs (Decidable (FirstCreator.Ordered _ s.manager e))
  | .pool e => inferInstanceAs (Decidable (FirstCreator.Ordered _ s.pool e))

structure NothingLost (left : Leftovers) (s : Startup P) : Prop where
  registry : ∀ object ∈ s.manager.object,
    (FirstCreator.alone (managerComponent P left)).run (left.zeroed P) s.manager.uses =
      some object.content
  pool : ∀ object ∈ s.pool.object,
    (FirstCreator.alone (poolComponent P)).run (poolComponent P).zeroed s.pool.uses =
      some object.content

structure Onward (before after : Steps.State P) : Prop where
  counts : ∀ kind, (before.shared.tables kind).count ≤ (after.shared.tables kind).count
  names : ∀ kind, (before.shared.tables kind).names <+: (after.shared.tables kind).names

/-- A step keeps every entry, and moves the cursor only by an access of an allocation. -/
structure Grows (s t : Startup P) : Prop where
  registry : ∀ a ∈ s.manager.object, ∃ b ∈ t.manager.object, Onward a.content b.content
  cursor : t.pool.uses = s.pool.uses → ∀ a ∈ s.pool.object, ∃ b ∈ t.pool.object,
    b.content.pool.headOffset = a.content.pool.headOffset

structure BothIntact (left : Leftovers) (s : Startup P) : Prop where
  manager : FirstCreator.Intact (managerComponent P left) CleanManager s.manager
  pool : FirstCreator.Intact (poolComponent P) (fun count s => count < 2 → UntouchedPool s) s.pool

theorem reachable_intact {s : Startup P}
    (reach : (startups P left).ReachableWhen Initialised s) : BothIntact left s := by
  refine reach.invariant (BothIntact left) ?_ ?_
  · rintro s rfl
    exact ⟨FirstCreator.init_intact _, FirstCreator.init_intact _⟩
  · rintro s (e | e) t intact ordered taken
    · obtain ⟨after, stepped, rfl⟩ := Option.map_eq_some_iff.mp taken
      exact ⟨FirstCreator.next_intact _ manager_harmless intact.manager ordered stepped,
        intact.pool⟩
    · obtain ⟨after, stepped, rfl⟩ := Option.map_eq_some_iff.mp taken
      exact ⟨intact.manager,
        FirstCreator.next_intact _ pool_harmless intact.pool ordered stepped⟩

theorem BothIntact.grows {s t : Startup P} {e : StartupEvent P} (intact : BothIntact left s)
    (taken : nextStartup left s e = some t) : Grows s t := by
  cases e with
  | manager e =>
    obtain ⟨manager, stepped, rfl⟩ := Option.map_eq_some_iff.mp taken
    refine ⟨fun a member => ?_, fun _ a member => ⟨a, member, rfl⟩⟩
    obtain ⟨b, found, ⟨_, same⟩ | ⟨p, use, _, _, applied⟩⟩ :=
      FirstCreator.Intact.step _ manager_harmless intact.manager stepped a member
    · exact ⟨b, found, same ▸ ⟨fun _ => Nat.le_refl _, fun _ => List.prefix_refl _⟩⟩
    · have reach := (intact.manager.clean a member).reachable
      exact ⟨b, found, (Steps.next_step applied).count_le, Steps.names_step reach applied⟩
  | pool e =>
    obtain ⟨pool, stepped, rfl⟩ := Option.map_eq_some_iff.mp taken
    refine ⟨fun a member => ⟨a, member, fun _ => Nat.le_refl _, fun _ => List.prefix_refl _⟩,
      fun same a member => ?_⟩
    obtain ⟨b, found, ⟨_, unchanged⟩ | ⟨p, use, _, more, _⟩⟩ :=
      FirstCreator.Intact.step _ pool_harmless intact.pool stepped a member
    · exact ⟨b, found, by rw [unchanged]⟩
    · have same : pool.uses = s.pool.uses := same
      simp [more] at same

/-- In every run in which nobody locks a mutex before the creator has written what its call
depends on, no registration is lost and no initialisation moves the cursor. -/
theorem startup_nothing_lost {s : Startup P}
    (reach : (startups P left).ReachableWhen Initialised s) :
    NothingLost left s ∧
      ∀ e t, Initialised s e → nextStartup left s e = some t → Grows s t := by
  have intact := reachable_intact reach
  exact ⟨⟨intact.manager.content, intact.pool.content⟩, fun _ _ _ taken => intact.grows taken⟩

end

/-- The object is created by one process and found by the other, which is done with its
constructor while the first one has not given the object its size. -/
def raced {Use : Type} : List (FirstCreator.Event Bool Use) :=
  [.openExclusive false false, .openExclusive true false, .openExisting true false,
    .mmap true false, .ftruncate false false, .mmap false false]

def publishes : List (FirstCreator.Event Bool Registration) :=
  .use true (.call Steps.publisher) :: List.replicate 15 (.use true (.step false))

theorem startup_nothing_lost_second : ∃ s : Startup Bool,
    (∃ object ∈ s.manager.object, (object.content.shared.tables .topic).count = 1) ∧
      (∃ object ∈ s.pool.object, object.content.pool.headOffset = 8) ∧ NothingLost .none s := by
  obtain ⟨s, reach, scene⟩ := Machine.reachable_of_check (startups Bool .none) Initialised rfl
    (List.map StartupEvent.manager
        (raced ++ .write false :: .write false :: publishes ++ [.write false]) ++
      List.map StartupEvent.pool (raced ++ .write false :: .write false ::
        .use true (.call 5) :: List.replicate 4 (.use true .step)))
    (fun s => decide ((∃ object ∈ s.manager.object,
        (object.content.shared.tables .topic).count = 1) ∧
      ∃ object ∈ s.pool.object, object.content.pool.headOffset = 8)) (by decide +kernel)
  obtain ⟨entered, taken⟩ := of_decide_eq_true scene
  exact ⟨s, entered, taken, (startup_nothing_lost reach).1⟩

/-- The second process publishes a topic as soon as the object has its size, and the first then
initialises the mutex and zeroes `topic_count`. -/
theorem registration_lost_at_startup :
    ¬ ∀ (s t : Startup Bool) (e : StartupEvent Bool),
      (startups Bool .none).Reachable s → nextStartup .none s e = some t →
        ∀ a ∈ s.manager.object, ∀ b ∈ t.manager.object,
          0 < (a.content.shared.tables .topic).count →
            0 < (b.content.shared.tables .topic).count := by
  intro claim
  obtain ⟨s, reach, scene⟩ := Machine.reachable_of_check (startups Bool .none)
    (fun _ _ => True) rfl (List.map StartupEvent.manager (raced ++ publishes ++ [.write false]))
    (fun s => decide (
      (s.manager.object.map fun o => (o.content.shared.tables .topic).count) = some 1 ∧
      ((nextStartup .none s (.manager (.write false))).bind fun t =>
        t.manager.object.map fun o => (o.content.shared.tables .topic).count) = some 0))
    (by decide +kernel)
  obtain ⟨before, after⟩ := of_decide_eq_true scene
  obtain ⟨a, first, one⟩ := Option.map_eq_some_iff.mp before
  obtain ⟨t, taken, after⟩ := Option.bind_eq_some_iff.mp after
  obtain ⟨b, second, zero⟩ := Option.map_eq_some_iff.mp after
  have still := claim s t _ reach taken a first b second (by omega)
  omega

end ComIpc.SystemManager
