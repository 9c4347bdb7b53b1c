import ComIpc.SystemManager.Steps

/-! A call that no other process interrupts.

The steps of such a call add up to what `createOrGetTopic` and `createOrGetService` say of it as
a whole: the same registry, the same name space and the same handle.
-/

set_option autoImplicit false

namespace ComIpc.SystemManager.Steps

open Semantics

theorem openExclusive_none (sh : Shared) (kind : Kind) {path : Bytes}
    (taken : sh.space.openExclusive path = none) : sh.openExclusive kind path = none := by
  simp [Shared.openExclusive, taken]

theorem openExclusive_some (sh : Shared) (kind : Kind) {path : Bytes} {space : ShmSpace Bytes}
    {obj : Nat} (opened : sh.space.openExclusive path = some (space, obj)) :
    ∃ sh', sh.openExclusive kind path = some (sh', obj) ∧ sh'.tables = sh.tables ∧
      sh'.space = space := by
  refine ⟨{ sh with
    space := space
    replacing := Function.update sh.replacing path (sh.replacing path || sh.listed kind path) },
    ?_, rfl, rfl⟩
  rw [Shared.openExclusive, opened, Option.map_some]

section
variable {P : Type} [DecidableEq P]

/-- The call has come to the point by steps of its own process alone. -/
def Reaches (s : State P) (p : P) (c : Access) (mutex : RobustMutex) (sh : Shared) (pc : Pc)
    (returned : List (Access × Nat)) : Prop :=
  ∃ fails : List Bool, (calls P).run s (.call p c :: fails.map (.step p)) =
    some ⟨mutex, sh, Function.update s.pcs p pc, returned⟩

variable {s : State P} {p : P} {c : Access} {mutex : RobustMutex} {sh : Shared}
  {returned : List (Access × Nat)}

theorem reaches_call (idle : s.pcs p = .idle) (c : Access) :
    Reaches s p c s.mutex s.shared (.locking c) s.returned := by
  refine ⟨[], ?_⟩
  simp only [List.map_nil, Machine.run, calls, Steps.next, idle]
  rfl

theorem Reaches.next {pc pc' : Pc} {mutex' : RobustMutex} {sh' : Shared}
    {returned' : List (Access × Nat)} (reaches : Reaches s p c mutex sh pc returned) (fails : Bool)
    (taken : next ⟨mutex, sh, Function.update s.pcs p pc, returned⟩ (.step p fails) =
      some ⟨mutex', sh', Function.update s.pcs p pc', returned'⟩) :
    Reaches s p c mutex' sh' pc' returned' := by
  obtain ⟨before, path⟩ := reaches
  refine ⟨before ++ [fails], ?_⟩
  rw [List.map_append, ← List.cons_append, Machine.run_append, path]
  simpa [Machine.run, calls] using taken

theorem Reaches.step {pc pc' : Pc} {sh' : Shared} (reaches : Reaches s p c mutex sh pc returned)
    (fails : Bool) (advanced : advance sh fails pc = some (sh', pc')) :
    Reaches s p c mutex sh' pc' returned := by
  refine reaches.next fails ?_
  cases pc with
  | idle | locking | releasing | leaving | returning => contradiction
  | _ => simp [Steps.next, advanced, State.goto]

theorem Reaches.lock {taken : RobustMutex} {recovered : Bool}
    (reaches : Reaches s p c mutex sh (.locking c) returned)
    (locked : lockRobust mutex = some (taken, recovered)) :
    Reaches s p c taken sh (.looking c) returned :=
  reaches.next false (by simp [Steps.next, locked, State.goto])

theorem Reaches.release (reaches : Reaches s p c mutex sh (.releasing c) returned) :
    Reaches s p c mutex.unlock sh (.opening c) returned :=
  reaches.next false (by simp [Steps.next, State.goto])

theorem Reaches.leave {result : Option Nat}
    (reaches : Reaches s p c mutex sh (.leaving c result) returned) :
    Reaches s p c mutex.unlock sh (.returning c result) returned :=
  reaches.next false (by simp [Steps.next, State.goto])

theorem Reaches.back {result : Option Nat}
    (reaches : Reaches s p c mutex sh (.returning c result) returned) :
    Reaches s p c mutex sh .idle (returned ++ (result.map fun obj => (c, obj)).toList) :=
  reaches.next false (by simp [Steps.next, State.goto])

/-! ### The phases of a call -/

theorem Reaches.opens (reaches : Reaches s p c mutex sh (.opening c) returned)
    (failures : Failures) :
    Reaches s p c mutex sh (.returning c
      (if failures.openExisting then none
        else if failures.mmap then none else sh.space.openExisting c.path)) returned := by
  cases opens : failures.openExisting with
  | true => exact reaches.step true rfl
  | false =>
    simp only [Bool.false_eq_true, if_false]
    cases found : sh.space.openExisting c.path with
    | none =>
      simp only [ite_self]
      exact reaches.step false (by simp [advance, found])
    | some obj =>
      have mapping : Reaches s p c mutex sh (.mapping c obj) returned :=
        reaches.step false (by simp [advance, found])
      cases maps : failures.mmap with
      | true => exact mapping.step true rfl
      | false =>
        by_cases joins : c.kind = .topic ∧ c.creator = false
        · have joining : Reaches s p c mutex sh (.joining c obj) returned :=
            mapping.step false (by simp [advance, joins])
          exact joining.step false rfl
        · exact mapping.step false (by simp [advance, joins])

def afterCreate (c : Access) : Option Nat → Pc
  | none => .leaving c none
  | some obj => .sizing c false obj

theorem Reaches.creates (reaches : Reaches s p c mutex sh (.creating c false) returned)
    {failures : Failures} {space : ShmSpace Bytes} {result : Option Nat}
    (created : createOrReclaim failures sh.space c.path = (space, result)) :
    ∃ sh', sh'.tables = sh.tables ∧ sh'.space = space ∧
      Reaches s p c mutex sh' (afterCreate c result) returned := by
  unfold createOrReclaim at created
  split at created
  · obtain ⟨rfl, rfl⟩ := Prod.mk.inj created
    exact ⟨sh, rfl, rfl, reaches.step true rfl⟩
  · split at created
    · rename_i first obj opened
      obtain ⟨rfl, rfl⟩ := Prod.mk.inj created
      obtain ⟨sh', opened, tables, space⟩ := openExclusive_some sh c.kind opened
      exact ⟨sh', tables, space, reaches.step false (by simp [advance, opened, afterCreate])⟩
    · rename_i taken
      have reclaiming : Reaches s p c mutex sh (.reclaiming c) returned :=
        reaches.step false (by simp [advance, openExclusive_none sh c.kind taken])
      have retrying : Reaches s p c mutex (sh.unlink c.path) (.retrying c) returned :=
        reclaiming.step false rfl
      split at created
      · obtain ⟨rfl, rfl⟩ := Prod.mk.inj created
        exact ⟨sh.unlink c.path, rfl, rfl, retrying.step true rfl⟩
      · dsimp only at created
        split at created
        · rename_i again obj opened
          obtain ⟨rfl, rfl⟩ := Prod.mk.inj created
          obtain ⟨sh', opened, tables, space⟩ :=
            openExclusive_some (sh.unlink c.path) c.kind opened
          exact ⟨sh', tables, space, retrying.step false (by simp [advance, opened, afterCreate])⟩
        · rename_i taken
          obtain ⟨rfl, rfl⟩ := Prod.mk.inj created
          have taken := openExclusive_none (sh.unlink c.path) c.kind taken
          exact ⟨sh.unlink c.path, rfl, rfl,
            retrying.step false (by simp [advance, taken, afterCreate])⟩

theorem Reaches.writes {restart : Bool} {obj : Nat} {field : Field} {rest : List Field}
    (reaches : Reaches s p c mutex sh (.initialising c restart obj (field :: rest)) returned) :
    ∃ sh', sh'.tables = sh.tables ∧ sh'.space = sh.space ∧
      Reaches s p c mutex sh' (if restart then .leaving c (some obj) else .counting c obj)
        returned := by
  induction rest generalizing sh field with
  | nil => exact ⟨(sh.write obj field).complete c.path, rfl, rfl, reaches.step false rfl⟩
  | cons other rest ih =>
    have written : Reaches s p c mutex (sh.write obj field)
        (.initialising c restart obj (other :: rest)) returned :=
      reaches.step false (by simp [advance])
    obtain ⟨sh', tables, space, reaches⟩ := ih written
    exact ⟨sh', tables, space, reaches⟩

theorem Reaches.initialises {restart : Bool} {obj : Nat}
    (reaches : Reaches s p c mutex sh (.sizing c restart obj) returned) (failures : Failures) :
    ∃ sh', sh'.tables = sh.tables ∧ sh'.space = sh.space ∧
      Reaches s p c mutex sh'
        (if failures.ftruncate || failures.mmap then .leaving c none
          else if restart then .leaving c (some obj) else .counting c obj) returned := by
  cases sizes : failures.ftruncate with
  | true => exact ⟨sh, rfl, rfl, reaches.step true rfl⟩
  | false =>
    have mapping : Reaches s p c mutex (sh.setSize obj) (.mappingNew c restart obj) returned :=
      reaches.step false rfl
    cases maps : failures.mmap with
    | true => exact ⟨sh.setSize obj, rfl, rfl, mapping.step true rfl⟩
    | false =>
      have initialising : Reaches s p c mutex (sh.setSize obj)
          (.initialising c restart obj c.kind.fields) returned := mapping.step false rfl
      obtain ⟨field, rest, fields⟩ : ∃ field rest, c.kind.fields = field :: rest := by
        cases c.kind <;> exact ⟨_, _, rfl⟩
      rw [fields] at initialising
      obtain ⟨sh', tables, space, reaches⟩ := initialising.writes
      exact ⟨sh', tables, space, reaches⟩

theorem Reaches.registers {obj : Nat} {table : Table}
    (reaches : Reaches s p c mutex sh (.counting c obj) returned)
    (same : sh.tables c.kind = table) (room : table.count < maxTopics) :
    ∃ sh', sh'.space = sh.space ∧ sh'.tables = Function.update sh.tables c.kind
        ⟨table.count + 1, Function.update table.slots ⟨table.count, room⟩
          ⟨strncpy (table.slots ⟨table.count, room⟩).name c.name.bytes (nameSize - 1), true⟩⟩ ∧
      Reaches s p c mutex sh' (.leaving c (some obj)) returned := by
  subst same
  have counted := reaches.step false (dif_pos room)
  have named := counted.step false rfl
  have active := named.step false rfl
  refine ⟨_, ?_, ?_, active⟩
  · rfl
  · simp [Shared.setTable]

theorem Reaches.wipes (reaches : Reaches s p c mutex sh (.wiping c) returned)
    {failures : Failures} {space : ShmSpace Bytes} {result : Option Nat}
    (wiped : wipe failures sh.space c.path = (space, result)) :
    ∃ sh', sh'.tables = sh.tables ∧ sh'.space = space ∧
      Reaches s p c mutex sh' (.leaving c result) returned := by
  have creating : Reaches s p c mutex (sh.unlink c.path) (.creating c true) returned :=
    reaches.step false rfl
  unfold wipe at wiped
  dsimp only at wiped
  split at wiped
  · obtain ⟨rfl, rfl⟩ := Prod.mk.inj wiped
    exact ⟨sh.unlink c.path, rfl, rfl, creating.step true rfl⟩
  · split at wiped
    · rename_i taken
      obtain ⟨rfl, rfl⟩ := Prod.mk.inj wiped
      have taken := openExclusive_none (sh.unlink c.path) c.kind taken
      exact ⟨sh.unlink c.path, rfl, rfl, creating.step false (by simp [advance, taken])⟩
    · rename_i space obj opened
      obtain ⟨rfl, rfl⟩ := Prod.mk.inj wiped
      obtain ⟨made, opened, tables, space⟩ :=
        openExclusive_some (sh.unlink c.path) c.kind opened
      have sizing : Reaches s p c mutex made (.sizing c true obj) returned :=
        creating.step false (by simp [advance, opened])
      obtain ⟨sh', sameTables, sameSpace, reaches⟩ := sizing.initialises failures
      refine ⟨sh', sameTables.trans tables, sameSpace.trans space, ?_⟩
      cases fails : failures.ftruncate || failures.mmap <;> simpa [fails] using reaches

/-! ### The call as a whole -/

/-- One of the two tables together with the mutex. -/
def State.registry (s : State P) (kind : Kind) : SystemManagerShm :=
  ⟨s.mutex, (s.shared.tables kind).count, (s.shared.tables kind).slots⟩

structure Alone (s : State P) (p : P) (c : Access) (mgr : SystemManagerShm)
    (space : ShmSpace Bytes) (handle : Option Nat) (t : State P) : Prop where
  path : ∃ fails : List Bool, (calls P).run s (.call p c :: fails.map (.step p)) = some t
  registry : t.registry c.kind = mgr
  others : ∀ kind, kind ≠ c.kind → t.shared.tables kind = s.shared.tables kind
  space : t.shared.space = space
  returned : t.returned = s.returned ++ (handle.map fun obj => (c, obj)).toList
  pcs : t.pcs = s.pcs

theorem Reaches.ends {result : Option Nat} {table : Table} (idle : s.pcs p = .idle)
    (reaches : Reaches s p c mutex sh (.returning c result) s.returned)
    (tables : sh.tables = Function.update s.shared.tables c.kind table) :
    ∃ t, Alone s p c ⟨mutex, table.count, table.slots⟩ sh.space result t := by
  obtain ⟨fails, path⟩ := reaches.back
  refine ⟨_, ⟨fails, path⟩, ?_, ?_, rfl, rfl, ?_⟩
  · simp [State.registry, tables]
  · intro kind other
    simp [tables, other]
  · simp [← idle]

theorem Reaches.endsSame {result : Option Nat} (idle : s.pcs p = .idle)
    (reaches : Reaches s p c mutex sh (.returning c result) s.returned)
    (tables : sh.tables = s.shared.tables) :
    ∃ t, Alone s p c ⟨mutex, (s.shared.tables c.kind).count, (s.shared.tables c.kind).slots⟩
      sh.space result t := by
  refine reaches.ends idle ?_
  rw [tables, Function.update_eq_self]

section
variable (idle : s.pcs p = .idle)
include idle

theorem Reaches.endsFound {i : Fin maxTopics} (failures : Failures)
    (looking : Reaches s p c mutex s.shared (.looking c) s.returned)
    (found : (s.shared.tables c.kind).find c.name = some i)
    (opens : ¬ (c.kind = .service ∧ c.creator = true)) :
    ∃ t, Alone s p c
      ⟨mutex.unlock, (s.shared.tables c.kind).count, (s.shared.tables c.kind).slots⟩ s.shared.space
      (if failures.openExisting then none
        else if failures.mmap then none else s.shared.space.openExisting c.path) t := by
  have releasing : Reaches s p c mutex s.shared (.releasing c) s.returned :=
    looking.step false (by simp [advance, found, opens])
  exact (releasing.release.opens failures).endsSame idle rfl

theorem Reaches.endsAbsent (looking : Reaches s p c mutex s.shared (.looking c) s.returned)
    (absent : (s.shared.tables c.kind).find c.name = none)
    (refused : ¬ (c.creator = true ∧ (s.shared.tables c.kind).count < maxTopics)) :
    ∃ t, Alone s p c
      ⟨mutex.unlock, (s.shared.tables c.kind).count, (s.shared.tables c.kind).slots⟩ s.shared.space
      none t := by
  have leaving : Reaches s p c mutex s.shared (.leaving c none) s.returned :=
    looking.step false (by simp [advance, absent, refused])
  exact leaving.leave.endsSame idle rfl

variable {failures : Failures} {space : ShmSpace Bytes}
  (looking : Reaches s p c mutex s.shared (.looking c) s.returned)
  (absent : (s.shared.tables c.kind).find c.name = none) (creator : c.creator = true)
  (room : (s.shared.tables c.kind).count < maxTopics)
include looking absent creator

theorem Reaches.endsFailed {result : Option Nat} (room : (s.shared.tables c.kind).count < maxTopics)
    (created : createOrReclaim failures s.shared.space c.path = (space, result))
    (failed : result = none ∨ (failures.ftruncate || failures.mmap) = true) :
    ∃ t, Alone s p c
      ⟨mutex.unlock, (s.shared.tables c.kind).count, (s.shared.tables c.kind).slots⟩ space none
      t := by
  have creating : Reaches s p c mutex s.shared (.creating c false) s.returned :=
    looking.step false (by simp [advance, absent, creator, room])
  obtain ⟨made, tables, rfl, reaches⟩ := creating.creates created
  cases result with
  | none => exact reaches.leave.endsSame idle tables
  | some obj =>
    have fails := failed.resolve_left (Option.some_ne_none obj)
    obtain ⟨sh', sameTables, sameSpace, reaches⟩ := reaches.initialises failures
    rw [fails, if_pos rfl] at reaches
    rw [← sameSpace]
    exact reaches.leave.endsSame idle (sameTables.trans tables)

theorem Reaches.endsCreated {obj : Nat}
    (created : createOrReclaim failures s.shared.space c.path = (space, some obj))
    (fine : (failures.ftruncate || failures.mmap) = false) :
    ∃ t, Alone s p c
      (SystemManagerShm.addTopic
        ⟨mutex, (s.shared.tables c.kind).count, (s.shared.tables c.kind).slots⟩ c.name room).unlock
      space (some obj) t := by
  have creating : Reaches s p c mutex s.shared (.creating c false) s.returned :=
    looking.step false (by simp [advance, absent, creator, room])
  obtain ⟨made, tables, rfl, reaches⟩ := creating.creates created
  obtain ⟨ready, sameTables, sameSpace, reaches⟩ := reaches.initialises failures
  rw [fine] at reaches
  have tables := sameTables.trans tables
  obtain ⟨sh', space, entry, reaches⟩ := reaches.registers (congrFun tables c.kind) room
  rw [tables] at entry
  rw [← sameSpace, ← space]
  exact reaches.leave.ends idle entry

end

/-- `createOrGetTopic` is what its steps do when nobody comes in between. -/
theorem createOrGetTopic_alone {failures : Failures} {name : CString} {isPublisher : Bool}
    {mgr : SystemManagerShm} {space : ShmSpace Bytes} {handle : Option Nat}
    (idle : s.pcs p = .idle)
    (done : createOrGetTopic failures (s.registry .topic) s.shared.space name isPublisher =
      some (mgr, space, handle)) :
    ∃ t, Alone s p ⟨.topic, name, isPublisher⟩ mgr space handle t := by
  simp only [createOrGetTopic, Option.bind_eq_bind, Option.bind_eq_some_iff] at done
  obtain ⟨held, entered, done⟩ := done
  obtain ⟨⟨taken, recovered⟩, locked, rfl⟩ := Option.map_eq_some_iff.mp entered
  have looking := (reaches_call idle ⟨.topic, name, isPublisher⟩).lock locked
  split at done
  · rename_i i found
    have ended := looking.endsFound idle failures found (by simp)
    split at done
    · rename_i fails
      cases done
      simp only [fails, if_true] at ended
      exact ended
    · rename_i fails
      simp only [fails, Bool.false_eq_true, if_false] at ended
      split at done
      · rename_i missing
        cases done
        exact (ite_self (none : Option Nat)) ▸ missing ▸ ended
      · rename_i obj linked
        cases done
        exact linked ▸ ended
  · rename_i absent
    split at done
    · rename_i subscriber
      cases done
      exact looking.endsAbsent idle absent (by simp [subscriber])
    · rename_i publisher
      have publisher : isPublisher = true := by simpa using publisher
      split at done
      · rename_i room
        split at done
        · rename_i created
          cases done
          exact looking.endsFailed idle absent publisher room created (.inl rfl)
        · rename_i created
          split at done
          · rename_i fails
            cases done
            exact looking.endsFailed idle absent publisher room created (.inr fails)
          · rename_i fine
            cases done
            exact looking.endsCreated idle absent publisher room created
              (Bool.eq_false_iff.mpr fine)
      · rename_i full
        cases done
        exact looking.endsAbsent idle absent fun both => full both.2

/-- `createOrGetService` is what its steps do when nobody comes in between. -/
theorem createOrGetService_alone {failures : Failures} {name : CString} {isServer : Bool}
    {table : ServiceTable} {space : ShmSpace Bytes} {handle : Option Nat}
    (idle : s.pcs p = .idle)
    (done : createOrGetService failures (.ofTopics (s.registry .service)) s.shared.space name
      isServer = some (table, space, handle)) :
    ∃ t, Alone s p ⟨.service, name, isServer⟩ table.asTopics space handle t := by
  simp only [createOrGetService, Option.bind_eq_bind, Option.bind_eq_some_iff] at done
  obtain ⟨held, entered, done⟩ := done
  obtain ⟨_, mapped, rfl⟩ := Option.map_eq_some_iff.mp entered
  obtain ⟨⟨taken, recovered⟩, locked, rfl⟩ := Option.map_eq_some_iff.mp mapped
  have looking := (reaches_call idle ⟨.service, name, isServer⟩).lock locked
  split at done
  · rename_i i found
    split at done
    · rename_i server
      cases done
      have found : (s.shared.tables .service).find name = some i := found
      have wiping : Reaches s p ⟨.service, name, isServer⟩ taken s.shared
          (.wiping ⟨.service, name, isServer⟩) s.returned :=
        looking.step false (by simp [advance, found, server])
      obtain ⟨sh', tables, space, reaches⟩ := wiping.wipes rfl
      have ended := reaches.leave.endsSame idle tables
      rw [space] at ended
      exact ended
    · rename_i client
      have ended := looking.endsFound idle failures found (by simpa using client)
      split at done
      · rename_i fails
        cases done
        simp only [fails, if_true] at ended
        exact ended
      · rename_i fails
        simp only [fails, Bool.false_eq_true, if_false] at ended
        split at done
        · rename_i missing
          cases done
          exact (ite_self (none : Option Nat)) ▸ missing ▸ ended
        · rename_i obj linked
          cases done
          exact linked ▸ ended
  · rename_i absent
    split at done
    · rename_i client
      cases done
      exact looking.endsAbsent idle absent (by simp [client])
    · rename_i server
      have server : isServer = true := by simpa using server
      split at done
      · rename_i room
        split at done
        · rename_i created
          cases done
          exact looking.endsFailed idle absent server room created (.inl rfl)
        · rename_i created
          split at done
          · rename_i fails
            cases done
            exact looking.endsFailed idle absent server room created (.inr fails)
          · rename_i fine
            cases done
            exact looking.endsCreated idle absent server room created (Bool.eq_false_iff.mpr fine)
      · rename_i full
        cases done
        exact looking.endsAbsent idle absent fun both => full both.2

end

end ComIpc.SystemManager.Steps
