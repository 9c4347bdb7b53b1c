import ComIpc.SystemManager.Steps

/-! What one step of a call can do.

Every way through `advance` and `next`, with its guards and what it leaves behind; what holds
over all steps is proved by cases on these.
-/

set_option autoImplicit false

namespace ComIpc.SystemManager.Steps

open Semantics

/-- The steps that neither take nor release the manager mutex. -/
inductive Moves (sh : Shared) : Pc → Shared → Pc → Prop where
  | restarts {c : Access} {i : Fin maxTopics} : (sh.tables c.kind).find c.name = some i →
      c.kind = .service → c.creator = true → Moves sh (.looking c) sh (.wiping c)
  | finds {c : Access} {i : Fin maxTopics} : (sh.tables c.kind).find c.name = some i →
      ¬ (c.kind = .service ∧ c.creator = true) → Moves sh (.looking c) sh (.releasing c)
  | starts {c : Access} : (sh.tables c.kind).find c.name = none → c.creator = true →
      (sh.tables c.kind).count < maxTopics → Moves sh (.looking c) sh (.creating c false)
  | refuses {c : Access} : (sh.tables c.kind).find c.name = none →
      Moves sh (.looking c) sh (.leaving c none)
  | misses {c : Access} : Moves sh (.opening c) sh (.returning c none)
  | opens {c : Access} {obj : Nat} : sh.space.openExisting c.path = some obj →
      Moves sh (.opening c) sh (.mapping c obj)
  | unmapped {c : Access} {obj : Nat} : Moves sh (.mapping c obj) sh (.returning c none)
  | joins {c : Access} {obj : Nat} : c.kind = .topic → c.creator = false →
      Moves sh (.mapping c obj) sh (.joining c obj)
  | maps {c : Access} {obj : Nat} : Moves sh (.mapping c obj) sh (.returning c (some obj))
  | unjoined {c : Access} {obj : Nat} : Moves sh (.joining c obj) sh (.returning c none)
  | joined {c : Access} {obj : Nat} : Moves sh (.joining c obj) sh (.returning c (some obj))
  | wipes {c : Access} (fails : Bool) :
      Moves sh (.wiping c) (if fails then sh else sh.unlink c.path) (.creating c true)
  | uncreated {c : Access} {restart : Bool} : Moves sh (.creating c restart) sh (.leaving c none)
  | creates {c : Access} {restart : Bool} {sh' : Shared} {obj : Nat} :
      sh.openExclusive c.kind c.path = some (sh', obj) →
      Moves sh (.creating c restart) sh' (.sizing c restart obj)
  | orphaned {c : Access} : sh.openExclusive c.kind c.path = none →
      Moves sh (.creating c false) sh (.reclaiming c)
  | reclaims {c : Access} (fails : Bool) :
      Moves sh (.reclaiming c) (if fails then sh else sh.unlink c.path) (.retrying c)
  | gone {c : Access} : Moves sh (.retrying c) sh (.leaving c none)
  | retries {c : Access} {sh' : Shared} {obj : Nat} :
      sh.openExclusive c.kind c.path = some (sh', obj) →
      Moves sh (.retrying c) sh' (.sizing c false obj)
  | unsized {c : Access} {restart : Bool} {obj : Nat} :
      Moves sh (.sizing c restart obj) sh (.leaving c none)
  | sizes {c : Access} {restart : Bool} {obj : Nat} :
      Moves sh (.sizing c restart obj) (sh.setSize obj) (.mappingNew c restart obj)
  | unmappedNew {c : Access} {restart : Bool} {obj : Nat} :
      Moves sh (.mappingNew c restart obj) sh (.leaving c none)
  | mapsNew {c : Access} {restart : Bool} {obj : Nat} :
      Moves sh (.mappingNew c restart obj) sh (.initialising c restart obj c.kind.fields)
  | initialises {c : Access} {restart : Bool} {obj : Nat} {field : Field} {rest : List Field} :
      rest ≠ [] → Moves sh (.initialising c restart obj (field :: rest)) (sh.write obj field)
        (.initialising c restart obj rest)
  | replaced {c : Access} {obj : Nat} {field : Field} :
      Moves sh (.initialising c true obj [field]) ((sh.write obj field).complete c.path)
        (.leaving c (some obj))
  | completed {c : Access} {obj : Nat} {field : Field} :
      Moves sh (.initialising c false obj [field]) ((sh.write obj field).complete c.path)
        (.counting c obj)
  | counts {c : Access} {obj : Nat} (room : (sh.tables c.kind).count < maxTopics) :
      Moves sh (.counting c obj)
        (sh.setTable c.kind { sh.tables c.kind with count := (sh.tables c.kind).count + 1 })
        (.naming c obj ⟨(sh.tables c.kind).count, room⟩)
  | names {c : Access} {obj : Nat} {idx : Fin maxTopics} :
      Moves sh (.naming c obj idx)
        (sh.setTable c.kind { sh.tables c.kind with
          slots := Function.update (sh.tables c.kind).slots idx
            { (sh.tables c.kind).slots idx with
              name := strncpy ((sh.tables c.kind).slots idx).name c.name.bytes (nameSize - 1) } })
        (.activating c obj idx)
  | activates {c : Access} {obj : Nat} {idx : Fin maxTopics} :
      Moves sh (.activating c obj idx)
        (sh.setTable c.kind { sh.tables c.kind with
          slots := Function.update (sh.tables c.kind).slots idx
            { (sh.tables c.kind).slots idx with active := true } })
        (.leaving c (some obj))

theorem advance_moves {sh sh' : Shared} {fails : Bool} {pc pc' : Pc}
    (taken : advance sh fails pc = some (sh', pc')) : Moves sh pc sh' pc' := by
  cases pc with
  | idle | locking | releasing | leaving | returning => contradiction
  | looking c =>
    simp only [advance] at taken
    split at taken
    · split at taken <;> obtain ⟨rfl, rfl⟩ := Prod.mk.inj (Option.some.inj taken)
      · rename_i found server
        exact .restarts found server.1 server.2
      · exact .finds ‹_› ‹_›
    · split at taken <;> obtain ⟨rfl, rfl⟩ := Prod.mk.inj (Option.some.inj taken)
      · rename_i missing creates
        exact .starts missing creates.1 creates.2
      · exact .refuses ‹_›
  | opening c =>
    simp only [advance] at taken
    split at taken
    · obtain ⟨rfl, rfl⟩ := Prod.mk.inj (Option.some.inj taken)
      exact .misses
    · split at taken <;> obtain ⟨rfl, rfl⟩ := Prod.mk.inj (Option.some.inj taken)
      · exact .misses
      · exact .opens ‹_›
  | mapping c obj =>
    simp only [advance] at taken
    split at taken
    · obtain ⟨rfl, rfl⟩ := Prod.mk.inj (Option.some.inj taken)
      exact .unmapped
    · split at taken <;> obtain ⟨rfl, rfl⟩ := Prod.mk.inj (Option.some.inj taken)
      · rename_i subscriber
        exact .joins subscriber.1 subscriber.2
      · exact .maps
  | joining c obj =>
    obtain ⟨rfl, rfl⟩ := Prod.mk.inj (Option.some.inj taken)
    cases fails with
    | true => exact .unjoined
    | false => exact .joined
  | wiping c =>
    obtain ⟨rfl, rfl⟩ := Prod.mk.inj (Option.some.inj taken)
    exact .wipes fails
  | creating c restart =>
    simp only [advance] at taken
    split at taken
    · obtain ⟨rfl, rfl⟩ := Prod.mk.inj (Option.some.inj taken)
      exact .uncreated
    · split at taken <;> obtain ⟨rfl, rfl⟩ := Prod.mk.inj (Option.some.inj taken)
      · exact .creates ‹_›
      · cases restart with
        | true => exact .uncreated
        | false => exact .orphaned ‹_›
  | reclaiming c =>
    obtain ⟨rfl, rfl⟩ := Prod.mk.inj (Option.some.inj taken)
    exact .reclaims fails
  | retrying c =>
    simp only [advance] at taken
    split at taken
    · obtain ⟨rfl, rfl⟩ := Prod.mk.inj (Option.some.inj taken)
      exact .gone
    · split at taken <;> obtain ⟨rfl, rfl⟩ := Prod.mk.inj (Option.some.inj taken)
      · exact .retries ‹_›
      · exact .gone
  | sizing c restart obj =>
    simp only [advance] at taken
    split at taken <;> obtain ⟨rfl, rfl⟩ := Prod.mk.inj (Option.some.inj taken)
    · exact .unsized
    · exact .sizes
  | mappingNew c restart obj =>
    simp only [advance] at taken
    split at taken <;> obtain ⟨rfl, rfl⟩ := Prod.mk.inj (Option.some.inj taken)
    · exact .unmappedNew
    · exact .mapsNew
  | initialising c restart obj rest =>
    cases rest with
    | nil => contradiction
    | cons field rest =>
      simp only [advance] at taken
      split at taken <;> obtain ⟨rfl, rfl⟩ := Prod.mk.inj (Option.some.inj taken)
      · rename_i last
        subst last
        cases restart with
        | true => exact .replaced
        | false => exact .completed
      · exact .initialises ‹_›
  | counting c obj =>
    simp only [advance] at taken
    split at taken
    · rename_i room
      obtain ⟨rfl, rfl⟩ := Prod.mk.inj (Option.some.inj taken)
      exact .counts room
    · contradiction
  | naming c obj idx =>
    obtain ⟨rfl, rfl⟩ := Prod.mk.inj (Option.some.inj taken)
    exact .names
  | activating c obj idx =>
    obtain ⟨rfl, rfl⟩ := Prod.mk.inj (Option.some.inj taken)
    exact .activates

section
variable {P : Type} [DecidableEq P]

inductive Step (s : State P) : Event P → State P → Prop where
  | called {p : P} {c : Access} : s.pcs p = .idle → Step s (.call p c) (s.goto p (.locking c))
  | locked {p : P} {c : Access} {fails : Bool} : s.pcs p = .locking c → s.mutex.Usable →
      Step s (.step p fails) ({ s with mutex := .held }.goto p (.looking c))
  | released {p : P} {c : Access} {fails : Bool} : s.pcs p = .releasing c →
      Step s (.step p fails) ({ s with mutex := s.mutex.unlock }.goto p (.opening c))
  | left {p : P} {c : Access} {result : Option Nat} {fails : Bool} : s.pcs p = .leaving c result →
      Step s (.step p fails) ({ s with mutex := s.mutex.unlock }.goto p (.returning c result))
  | returned {p : P} {c : Access} {result : Option Nat} {fails : Bool} :
      s.pcs p = .returning c result → Step s (.step p fails)
        ({ s with returned := s.returned ++ (result.map fun obj => (c, obj)).toList }.goto p .idle)
  | moved {p : P} {fails : Bool} {shared : Shared} {pc : Pc} :
      Moves s.shared (s.pcs p) shared pc →
      Step s (.step p fails) ({ s with shared := shared }.goto p pc)
  | died {p : P} : Step s (.dies p) ({ s with
      mutex := if (s.pcs p).holding then s.mutex.ownerDies else s.mutex }.goto p .idle)

theorem next_step {s t : State P} {e : Event P} (taken : next s e = some t) : Step s e t := by
  cases e with
  | call p c =>
    simp only [next, Option.bind_eq_bind, Option.bind_eq_some_iff, Option.some.injEq,
      guard_passed] at taken
    obtain ⟨_, idle, rfl⟩ := taken
    exact .called idle
  | dies p => exact Option.some.inj taken ▸ .died
  | step p fails =>
    simp only [next] at taken
    split at taken
    · contradiction
    · rename_i c here
      simp only [Option.bind_eq_bind, Option.bind_eq_some_iff, Option.some.injEq] at taken
      obtain ⟨⟨mutex, recovered⟩, locked, rfl⟩ := taken
      obtain ⟨rfl, usable⟩ := lockRobust_held locked
      exact .locked here usable
    · rename_i c here
      exact Option.some.inj taken ▸ .released here
    · rename_i c result here
      exact Option.some.inj taken ▸ .left here
    · rename_i c result here
      exact Option.some.inj taken ▸ .returned here
    · simp only [Option.bind_eq_bind, Option.bind_eq_some_iff, Option.some.injEq] at taken
      obtain ⟨⟨shared, pc⟩, advanced, rfl⟩ := taken
      exact .moved (advance_moves advanced)

end

end ComIpc.SystemManager.Steps
