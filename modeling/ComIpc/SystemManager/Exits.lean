import ComIpc.Semantics.Until
import ComIpc.SystemManager.Exclusion
import ComIpc.SystemManager.Handles

/-! The exits of `createOrGetTopic` and `createOrGetService`.

A call that has locked the manager mutex comes to its return whatever fails, and it unlocks the
mutex once on the way. A call that returns nothing has left both tables as they were, and one
that returns a handle has made at most one entry.
-/

set_option autoImplicit false

namespace ComIpc.SystemManager.Steps

open Semantics

/-- No call takes more than this many steps to its return. -/
def Pc.rank : Pc → Nat
  | .idle => 0
  | .returning _ _ => 1
  | .joining _ _ | .leaving _ _ => 2
  | .mapping _ _ | .activating _ _ _ => 3
  | .opening _ | .naming _ _ _ => 4
  | .releasing _ | .counting _ _ => 5
  | .initialising _ _ _ rest => 6 + rest.length
  | .mappingNew _ _ _ => 12
  | .sizing _ _ _ => 13
  | .retrying _ => 14
  | .reclaiming _ => 15
  | .creating _ _ => 16
  | .wiping _ => 17
  | .looking _ => 18
  | .locking _ => 19

theorem Shared.openExclusive_tables {sh sh' : Shared} {kind : Kind} {path : Bytes} {obj : Nat}
    (opened : sh.openExclusive kind path = some (sh', obj)) : sh'.tables = sh.tables := by
  obtain ⟨created, _, same⟩ := Option.map_eq_some_iff.mp opened
  exact (Prod.mk.inj same).1 ▸ rfl

/-! ### What a call has done to the tables -/

def Table.append (table : Table) (name : CString) (room : table.count < maxTopics) : Table :=
  let idx : Fin maxTopics := ⟨table.count, room⟩
  ⟨table.count + 1, Function.update table.slots idx
    ⟨strncpy (table.slots idx).name name.bytes (nameSize - 1), true⟩⟩

def Appended (before after : Kind → Table) (c : Access) : Prop :=
  ∃ room, after = Function.update before c.kind ((before c.kind).append c.name room)

def Progress (c : Access) (before after : Kind → Table) : Pc → Prop
  | .idle | .locking _ => False
  | .looking c' | .releasing c' | .wiping c' => c' = c ∧ after = before
  | .creating c' restart | .sizing c' restart _ | .mappingNew c' restart _ =>
    c' = c ∧ after = before ∧ (restart = false → (before c.kind).count < maxTopics)
  | .initialising c' restart _ rest =>
    c' = c ∧ after = before ∧ (restart = false → (before c.kind).count < maxTopics) ∧ rest ≠ []
  | .reclaiming c' | .retrying c' | .counting c' _ =>
    c' = c ∧ after = before ∧ (before c.kind).count < maxTopics
  | .naming c' _ idx => c' = c ∧ ∃ room, idx = ⟨(before c.kind).count, room⟩ ∧
      after = Function.update before c.kind
        { before c.kind with count := (before c.kind).count + 1 }
  | .activating c' _ idx => c' = c ∧ ∃ room, idx = ⟨(before c.kind).count, room⟩ ∧
      after = Function.update before c.kind ⟨(before c.kind).count + 1,
        Function.update (before c.kind).slots idx { (before c.kind).slots idx with
          name := strncpy ((before c.kind).slots idx).name c.name.bytes (nameSize - 1) }⟩
  | .leaving c' none => c' = c ∧ after = before
  | .leaving c' (some _) => c' = c ∧ (after = before ∨ Appended before after c)
  | .opening c' | .mapping c' _ | .joining c' _ | .returning c' _ => c' = c

theorem Moves.progress {sh sh' : Shared} {pc pc' : Pc} {c : Access} {before : Kind → Table}
    (moves : Moves sh pc sh' pc') (progress : Progress c before sh.tables pc) :
    Progress c before sh'.tables pc' := by
  cases moves with
  | misses | opens | unmapped | joins | maps | unjoined | joined => exact progress
  | restarts | finds | refuses => exact progress
  | starts _ _ room =>
    obtain ⟨rfl, same⟩ := progress
    exact ⟨rfl, same, fun _ => same ▸ room⟩
  | wipes fails =>
    obtain ⟨rfl, same⟩ := progress
    exact ⟨rfl, by cases fails <;> exact same, nofun⟩
  | uncreated | gone | unsized | unmappedNew => exact ⟨progress.1, progress.2.1⟩
  | creates opened =>
    obtain ⟨rfl, same, room⟩ := progress
    exact ⟨rfl, (Shared.openExclusive_tables opened).trans same, room⟩
  | orphaned => exact ⟨progress.1, progress.2.1, progress.2.2 rfl⟩
  | reclaims fails =>
    obtain ⟨rfl, same, room⟩ := progress
    exact ⟨rfl, by cases fails <;> exact same, room⟩
  | retries opened =>
    obtain ⟨rfl, same, room⟩ := progress
    exact ⟨rfl, (Shared.openExclusive_tables opened).trans same, fun _ => room⟩
  | sizes => exact progress
  | @mapsNew c' =>
    obtain ⟨rfl, same, room⟩ := progress
    exact ⟨rfl, same, room, by cases c'.kind <;> exact List.cons_ne_nil _ _⟩
  | initialises more =>
    obtain ⟨rfl, same, room, _⟩ := progress
    exact ⟨rfl, same, room, more⟩
  | replaced => exact ⟨progress.1, .inl progress.2.1⟩
  | completed => exact ⟨progress.1, progress.2.1, progress.2.2.1 rfl⟩
  | counts room =>
    obtain ⟨rfl, rfl, _⟩ := progress
    exact ⟨rfl, room, rfl, rfl⟩
  | names =>
    obtain ⟨rfl, room, rfl, same⟩ := progress
    refine ⟨rfl, room, rfl, ?_⟩
    simp only [Shared.setTable, same, Function.update_self, Function.update_idem]
  | activates =>
    obtain ⟨rfl, room, rfl, same⟩ := progress
    refine ⟨rfl, .inr ⟨room, ?_⟩⟩
    simp only [Shared.setTable, same, Function.update_self, Function.update_idem, Table.append]

theorem advance_proceeds (sh : Shared) (fails : Bool) {pc : Pc} {c : Access}
    {before : Kind → Table} (progress : Progress c before sh.tables pc) :
    (∃ c', pc = .releasing c') ∨ (∃ c' result, pc = .leaving c' result) ∨
      (∃ c' result, pc = .returning c' result) ∨
      ∃ sh' pc', advance sh fails pc = some (sh', pc') ∧ pc'.rank < pc.rank := by
  cases pc with
  | idle | locking => exact progress.elim
  | releasing c' => exact .inl ⟨c', rfl⟩
  | leaving c' result => exact .inr (.inl ⟨c', result, rfl⟩)
  | returning c' result => exact .inr (.inr (.inl ⟨c', result, rfl⟩))
  | joining | wiping | reclaiming | naming | activating =>
    exact .inr (.inr (.inr ⟨_, _, rfl, by simp only [Pc.rank]; omega⟩))
  | looking | opening | mapping | retrying | sizing =>
    refine .inr (.inr (.inr ?_))
    simp only [advance]
    repeat' split
    all_goals exact ⟨_, _, rfl, by simp only [Pc.rank]; omega⟩
  | creating c' restart =>
    refine .inr (.inr (.inr ?_))
    simp only [advance]
    repeat' split
    all_goals exact ⟨_, _, rfl, by simp only [Pc.rank]; omega⟩
  | mappingNew c' restart obj =>
    have five : c'.kind.fields.length = 5 := by cases c'.kind <;> rfl
    refine .inr (.inr (.inr ?_))
    simp only [advance]
    split <;> exact ⟨_, _, rfl, by simp only [Pc.rank]; omega⟩
  | initialising c' restart obj rest =>
    cases rest with
    | nil => exact absurd rfl progress.2.2.2
    | cons field rest =>
      refine .inr (.inr (.inr ?_))
      simp only [advance]
      split
      · refine ⟨_, _, rfl, ?_⟩
        cases restart <;> simp [Pc.rank] <;> omega
      · exact ⟨_, _, rfl, by simp [Pc.rank]⟩
  | counting c' obj =>
    obtain ⟨rfl, same, room⟩ := progress
    refine .inr (.inr (.inr ?_))
    simp only [advance, same]
    rw [dif_pos room]
    exact ⟨_, _, rfl, by simp only [Pc.rank]; omega⟩

def Shared.Room (sh : Shared) : Prop := ∀ kind, (sh.tables kind).count ≤ maxTopics

theorem Shared.Room.setTable {sh : Shared} (room : sh.Room) (kind : Kind) {table : Table}
    (fits : table.count ≤ maxTopics) : (sh.setTable kind table).Room := by
  intro other
  by_cases same : other = kind
  · subst same
    simpa [Shared.setTable] using fits
  · simpa [Shared.setTable, same] using room other

theorem Shared.Room.openExclusive {sh sh' : Shared} (room : sh.Room) {kind : Kind} {path : Bytes}
    {obj : Nat} (opened : sh.openExclusive kind path = some (sh', obj)) : sh'.Room := by
  intro other
  rw [Shared.openExclusive_tables opened]
  exact room other

theorem Moves.room {sh sh' : Shared} {pc pc' : Pc} (moves : Moves sh pc sh' pc')
    (room : sh.Room) : sh'.Room := by
  cases moves with
  | wipes fails | reclaims fails => cases fails <;> exact room
  | creates opened | retries opened => exact room.openExclusive opened
  | counts more => exact room.setTable _ (Nat.succ_le_of_lt more)
  | names | activates => exact room.setTable _ (room _)
  | _ => exact room

section
variable {P : Type} [DecidableEq P]

def Event.process : Event P → P
  | .call p _ | .step p _ | .dies p => p

def Ends (p : P) (s : State P) (e : Event P) : Prop :=
  e = .dies p ∨ ∃ fails, e = .step p fails ∧ ∃ c result, s.pcs p = .returning c result

def During (p : P) (s t : State P) : Prop :=
  (calls P).Before (fun _ _ => True) (Ends p) s t

def Left (c : Access) (before after : Kind → Table) : Pc → Prop
  | .opening c' => c' = c ∧ after = before
  | .returning c' none => c' = c ∧ after = before
  | .returning c' (some _) => c' = c ∧ (after = before ∨ Appended before after c)
  | _ => False

/-- A call that has locked the manager mutex, from then on. -/
structure CleanExit (s : State P) (p : P) (c : Access) : Prop where
  /-- The call comes to its return in a bounded number of its own steps, whatever fails. -/
  proceeds : ∀ u, During p s u → ∀ fails, ∃ t, next u (.step p fails) = some t ∧
    (Ends p u (.step p fails) ∨ (t.pcs p).rank < (u.pcs p).rank)
  unlocks : ∀ u e t, During p s u → ¬ Ends p u e → next u e = some t →
    (u.pcs p).holding = true → (t.pcs p).holding = false →
      t.mutex = .unlocked ∧ Left c s.shared.tables t.shared.tables (t.pcs p)
  /-- After the unlock the call changes neither the mutex nor the registry. -/
  outside : ∀ u fails t, During p s u → (u.pcs p).holding = false →
    next u (.step p fails) = some t →
      (t.pcs p).holding = false ∧ t.mutex = u.mutex ∧ t.shared.tables = u.shared.tables
  /-- Whoever holds the mutex when the call returns, it is another process. -/
  released : ∀ u c' result, During p s u → u.pcs p = .returning c' result →
    c' = c ∧ (u.mutex.Usable ∨ ∃ q, q ≠ p ∧ (u.pcs q).holding = true)
  room : ∀ u, During p s u → u.shared.Room

theorem reachable_room {s : State P} (reach : (calls P).Reachable s) : s.shared.Room := by
  refine reach.invariant (fun s => s.shared.Room) ?_ ?_
  · rintro s ⟨_, tables, _⟩ kind
    rw [tables]
    exact Nat.zero_le _
  · intro s e t room _ taken
    cases next_step taken with
    | moved moves => exact moves.room room
    | _ => exact room

/-- The other processes leave a call where it is, and the shared state as well while the call
holds the mutex. -/
theorem Exclusive.frame {s t : State P} {e : Event P} (exclusive : Exclusive s) {p : P}
    (step : Step s e t) (other : p ≠ e.process) :
    t.pcs p = s.pcs p ∧ ((s.pcs p).holding = true → t.shared = s.shared) := by
  cases step with
  | @moved q fails shared pc moves =>
    refine ⟨Function.update_of_ne other .., fun inside => ?_⟩
    refine moves.outside (Bool.eq_false_iff.mpr fun also => ?_)
    exact other (exclusive.alone p q inside also)
  | _ => exact ⟨Function.update_of_ne other .., fun _ => rfl⟩

theorem Step.progress {s t : State P} {e : Event P} (step : Step s e t) {c : Access}
    {before : Kind → Table}
    (progress : Progress c before s.shared.tables (s.pcs e.process))
    (goes : ¬ Ends e.process s e) : Progress c before t.shared.tables (t.pcs e.process) := by
  cases step with
  | called idle =>
    rw [Event.process, idle] at progress
    exact progress.elim
  | locked here =>
    rw [Event.process, here] at progress
    exact progress.elim
  | @released p c' fails here =>
    rw [Event.process, here] at progress
    simpa [State.goto, Event.process, Progress] using progress.1
  | @left p c' result fails here =>
    rw [Event.process, here] at progress
    have same : c' = c := by cases result <;> exact progress.1
    simpa [State.goto, Event.process, Progress] using same
  | returned here => exact absurd (.inr ⟨_, rfl, _, _, here⟩) goes
  | moved moves => simpa [State.goto, Event.process] using moves.progress progress
  | died => exact absurd (.inl rfl) goes

theorem progress_outside {c : Access} {before tables : Kind → Table} {pc : Pc}
    (progress : Progress c before tables pc) (outside : pc.holding = false)
    (after : Kind → Table) : Progress c before after pc := by
  cases pc with
  | idle | locking => exact progress.elim
  | opening | mapping | joining | returning => exact progress
  | _ => exact nomatch outside

theorem Exclusive.progress {s t : State P} {e : Event P} (exclusive : Exclusive s) {p : P}
    {c : Access} {before : Kind → Table} (progress : Progress c before s.shared.tables (s.pcs p))
    (goes : ¬ Ends p s e) (step : Step s e t) :
    Progress c before t.shared.tables (t.pcs p) := by
  by_cases own : p = e.process
  · subst own
    exact step.progress progress goes
  · obtain ⟨here, same⟩ := exclusive.frame step own
    rw [here]
    cases inside : (s.pcs p).holding with
    | true =>
      rw [same inside]
      exact progress
    | false => exact progress_outside progress inside _

structure Underway (c : Access) (before : Kind → Table) (p : P) (s : State P) : Prop where
  reach : (calls P).Reachable s
  progress : Progress c before s.shared.tables (s.pcs p)

theorem During.underway {s t : State P} {p : P} {c : Access} (path : During p s t)
    (reach : (calls P).Reachable s) (here : s.pcs p = .looking c) :
    Underway c s.shared.tables p t := by
  refine path.kept (Underway c s.shared.tables p) ?_ ⟨reach, here ▸ ⟨rfl, rfl⟩⟩
  intro u e v before _ goes taken
  have exclusive := reachable_exclusive before.reach
  exact ⟨before.reach.step trivial taken,
    exclusive.progress before.progress goes (next_step taken)⟩

@[simp] theorem goto_pcs (s : State P) (p : P) (pc : Pc) : (s.goto p pc).pcs p = pc :=
  Function.update_self ..

theorem next_advanced {s : State P} {p : P} {fails : Bool} {shared : Shared} {pc : Pc}
    (advanced : advance s.shared fails (s.pcs p) = some (shared, pc)) :
    next s (.step p fails) = some ({ s with shared := shared }.goto p pc) := by
  cases here : s.pcs p with
  | idle | locking | releasing | leaving | returning =>
    rw [here] at advanced
    contradiction
  | _ => simp [next, here, here ▸ advanced]

theorem Underway.proceeds {s : State P} {p : P} {c : Access} {before : Kind → Table}
    (underway : Underway c before p s) (fails : Bool) :
    ∃ t, next s (.step p fails) = some t ∧
      (Ends p s (.step p fails) ∨ (t.pcs p).rank < (s.pcs p).rank) := by
  obtain ⟨c', here⟩ | ⟨c', result, here⟩ | ⟨c', result, here⟩ | ⟨shared, pc, advanced, less⟩ :=
    advance_proceeds s.shared fails underway.progress
  · refine ⟨({ s with mutex := s.mutex.unlock }.goto p (.opening c')), by simp [next, here],
      .inr ?_⟩
    simp [State.goto, here, Pc.rank]
  · refine ⟨({ s with mutex := s.mutex.unlock }.goto p (.returning c' result)),
      by simp [next, here], .inr ?_⟩
    simp [State.goto, here, Pc.rank]
  · exact ⟨_, by simp only [next, here]; rfl, .inl (.inr ⟨fails, rfl, c', result, here⟩)⟩
  · refine ⟨_, next_advanced advanced, .inr ?_⟩
    simpa [State.goto] using less

theorem Underway.unlocks {s t : State P} {p : P} {c : Access} {before : Kind → Table}
    {e : Event P} (underway : Underway c before p s) (goes : ¬ Ends p s e) (step : Step s e t)
    (inside : (s.pcs p).holding = true) (outside : (t.pcs p).holding = false) :
    t.mutex = .unlocked ∧ Left c before t.shared.tables (t.pcs p) := by
  have exclusive := reachable_exclusive underway.reach
  have progress := underway.progress
  by_cases own : p = e.process
  · subst own
    cases step with
    | called idle =>
      rw [Event.process, idle] at inside
      contradiction
    | locked here | returned here =>
      rw [Event.process, here] at inside
      contradiction
    | @moved p fails shared pc moves =>
      simp only [Event.process, goto_pcs] at inside outside
      rw [moves.holding, inside] at outside
      contradiction
    | died => exact absurd (.inl rfl) goes
    | released here =>
      rw [Event.process, here] at progress
      refine ⟨by simp [State.goto, exclusive.held _ inside], ?_⟩
      simp only [Event.process, goto_pcs]
      exact progress
    | @left p c' result fails here =>
      rw [Event.process, here] at progress
      refine ⟨by simp [State.goto, exclusive.held _ inside], ?_⟩
      simp only [Event.process, goto_pcs]
      cases result <;> exact progress
  · rw [(exclusive.frame step own).1, inside] at outside
    contradiction

theorem Underway.outside {s t : State P} {p : P} {c : Access} {before : Kind → Table}
    {fails : Bool} (underway : Underway c before p s) (outside : (s.pcs p).holding = false)
    (step : Step s (.step p fails) t) :
    (t.pcs p).holding = false ∧ t.mutex = s.mutex ∧ t.shared.tables = s.shared.tables := by
  have progress := underway.progress
  cases step with
  | locked here =>
    rw [here] at progress
    exact progress.elim
  | released here | left here =>
    rw [here] at outside
    contradiction
  | returned => exact ⟨by rw [goto_pcs]; rfl, rfl, rfl⟩
  | moved moves =>
    refine ⟨?_, rfl, congrArg Shared.tables (moves.outside outside)⟩
    rw [goto_pcs, moves.holding, outside]

/-- Whatever fails, and whatever the other processes do, a call that has locked the manager mutex
unlocks it and returns, with the tables as it found them or with one more entry. -/
theorem exits_clean {s : State P} {p : P} {c : Access} (reach : (calls P).Reachable s)
    (here : s.pcs p = .looking c) : CleanExit s p c where
  proceeds u path := (path.underway reach here).proceeds
  unlocks u e t path goes taken inside outside :=
    (path.underway reach here).unlocks goes (next_step taken) inside outside
  outside u fails t path outside taken :=
    (path.underway reach here).outside outside (next_step taken)
  released := by
    intro u c' result path returns
    have underway := path.underway reach here
    have progress := underway.progress
    rw [returns] at progress
    refine ⟨progress, ?_⟩
    by_cases inside : ∃ q, (u.pcs q).holding = true
    · obtain ⟨q, inside⟩ := inside
      refine .inr ⟨q, ?_, inside⟩
      rintro rfl
      rw [returns] at inside
      contradiction
    · refine .inl ((reachable_exclusive underway.reach).free fun q => ?_)
      exact Bool.eq_false_iff.mpr fun also => inside ⟨q, also⟩
  room u path := reachable_room (path.underway reach here).reach

end

/-- A server has died inside of the mutex, its entry named but not active; a client was then
refused, and the server is started again. -/
theorem exits_clean_restarted : ∃ s : State (Fin 2),
    (calls (Fin 2)).Reachable s ∧ (s.shared.tables .service).count = 1 ∧ CleanExit s 0 server := by
  obtain ⟨s, reach, scene⟩ := Machine.reachable_of_check (calls (Fin 2)) (fun _ _ => True)
    fresh_initial
    (undisturbed 0 server 12 ++ [.dies 0] ++ undisturbed 1 client 4 ++ undisturbed 0 server 1)
    (fun s => decide (s.pcs 0 = .looking server ∧ (s.shared.tables .service).count = 1))
    (by decide +kernel)
  obtain ⟨here, one⟩ := of_decide_eq_true scene
  exact ⟨s, reach, one, exits_clean reach here⟩

end ComIpc.SystemManager.Steps
