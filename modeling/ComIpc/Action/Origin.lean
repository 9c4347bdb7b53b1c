import ComIpc.Action.Step

/-! The bus of an action.

A step of the action is a few steps of its bus. Every call on a topic of the action has
a purpose on record, and a purpose on record stays.
-/

set_option autoImplicit false

namespace ComIpc.Action

open Semantics

section
variable {C : Type}

/-- Bus steps that begin no call on a topic of the action. -/
def Silent : BusEvent C → Prop
  | .allocate _ (.other _) _ _ => True
  | .allocate _ _ _ _ => False
  | _ => True

theorem foreign_silent {e : BusEvent C} (foreign : Foreign e = true) : Silent e := by
  cases e with
  | allocate k topic => cases topic <;> trivial
  | _ => trivial

theorem OnlyBus.silent {e : Event C} {e' : BusEvent C} (only : OnlyBus e e') : Silent e' := by
  cases only with
  | traffic foreign => exact foreign_silent foreign
  | listen | listenWake | copyIn | enqueue => trivial

structure SameCalls (before after : Nat → Option (Bus.PublishCall Channel)) : Prop where
  keeps : Bus.Keeps before after
  begun : ∀ k call, after k = some call → before k = none → ∃ n, call.topic = .other n

theorem SameCalls.refl (calls : Nat → Option (Bus.PublishCall Channel)) :
    SameCalls calls calls :=
  ⟨.refl calls, fun k call found absent => by simp [found] at absent⟩

theorem SameCalls.trans {first second third : Nat → Option (Bus.PublishCall Channel)}
    (before : SameCalls first second) (after : SameCalls second third) :
    SameCalls first third where
  keeps := before.keeps.trans after.keeps
  begun := by
    intro k call found absent
    cases mid : second k with
    | none => exact after.begun k call found mid
    | some call' =>
      obtain ⟨n, other⟩ := before.begun k call' mid absent
      obtain ⟨call'', found', later⟩ := after.keeps k call' mid
      obtain rfl := Option.some.inj (found.symm.trans found')
      exact ⟨n, later.topic.trans other⟩

/-- Calls on the topics of the action are the ones whose purpose is on record. -/
structure Noted (calls : Nat → Option (Bus.PublishCall Channel))
    (purposes : Nat → Option (Purpose C)) : Prop where
  given : ∀ k purpose, purposes k = some purpose → ∃ call, calls k = some call ∧
    call.topic = purpose.channel ∧ call.type = .custom ∧ call.data = purpose.message
  meant : ∀ k call, calls k = some call →
    (∃ purpose, purposes k = some purpose) ∨ ∃ n, call.topic = .other n

theorem Noted.goOn {before after : Nat → Option (Bus.PublishCall Channel)}
    {purposes : Nat → Option (Purpose C)} (noted : Noted before purposes)
    (same : SameCalls before after) : Noted after purposes where
  given := by
    intro k purpose meant
    obtain ⟨call, found, topic, type, data⟩ := noted.given k purpose meant
    obtain ⟨call', found', later⟩ := same.keeps k call found
    exact ⟨call', found', later.topic.trans topic, later.type.trans type,
      later.data.trans data⟩
  meant := by
    intro k call' found'
    cases found : before k with
    | none => exact .inr (same.begun k call' found' found)
    | some call =>
      obtain ⟨call'', found'', later⟩ := same.keeps k call found
      obtain rfl := Option.some.inj (found'.symm.trans found'')
      exact (noted.meant k call found).imp_right fun ⟨n, other⟩ =>
        ⟨n, later.topic.trans other⟩

theorem Noted.fresh {calls : Nat → Option (Bus.PublishCall Channel)}
    {purposes : Nat → Option (Purpose C)} (noted : Noted calls purposes) {k : Nat}
    (absent : calls k = none) : purposes k = none := by
  cases meant : purposes k with
  | none => rfl
  | some purpose =>
    obtain ⟨call, found, _⟩ := noted.given k purpose meant
    simp [absent] at found

theorem Noted.begin {calls : Nat → Option (Bus.PublishCall Channel)}
    {purposes : Nat → Option (Purpose C)} (noted : Noted calls purposes) {k : Nat}
    {call : Bus.PublishCall Channel} {purpose : Purpose C} (topic : call.topic = purpose.channel)
    (type : call.type = .custom) (data : call.data = purpose.message) :
    Noted (Function.update calls k (some call)) (Function.update purposes k (some purpose)) where
  given := by
    intro other purpose' meant
    by_cases self : other = k
    · subst self
      rw [Function.update_self] at meant
      obtain rfl := Option.some.inj meant
      exact ⟨call, Function.update_self _ _ _, topic, type, data⟩
    · rw [Function.update_of_ne self] at meant
      obtain ⟨call', found, rest⟩ := noted.given other purpose' meant
      exact ⟨call', by rwa [Function.update_of_ne self], rest⟩
  meant := by
    intro other call' found
    by_cases self : other = k
    · subst self
      exact .inl ⟨purpose, Function.update_self _ _ _⟩
    · rw [Function.update_of_ne self] at found
      rw [Function.update_of_ne self]
      exact noted.meant other call' found

def Extends (before after : Nat → Option (Purpose C)) : Prop :=
  ∀ k purpose, before k = some purpose → after k = some purpose

theorem extends_update {purposes : Nat → Option (Purpose C)} {k : Nat}
    (fresh : purposes k = none) (purpose : Purpose C) :
    Extends purposes (Function.update purposes k (some purpose)) := by
  intro other purpose' meant
  by_cases self : other = k
  · simp [self, fresh] at meant
  · rwa [Function.update_of_ne self]

end

section
variable {C : Type} [DecidableEq C]

theorem next_sameCalls {bus bus' : ActionBus C} {e : BusEvent C} (silent : Silent e)
    (taken : Bus.next bus e = some bus') : SameCalls bus.calls bus'.calls where
  keeps := (Bus.next_calls taken).keeps
  begun := by
    intro k call found absent
    obtain rfl := (Bus.next_calls taken).begun k call found absent
    cases topic : call.topic with
    | other n => exact ⟨n, rfl⟩
    | goal | feedback | result =>
      rw [topic] at silent
      exact silent.elim

-- A client that connects takes four steps of the bus at once, hence runs here.

def Silently (before after : ActionBus C) : Prop :=
  ∃ schedule, (∀ e ∈ schedule, Silent e) ∧
    (Bus.machine Channel Nat (Reader C)).run before schedule = some after

theorem Silently.refl (bus : ActionBus C) : Silently bus bus := ⟨[], by simp, rfl⟩

theorem Silently.next {bus bus' after : ActionBus C} {e : BusEvent C}
    (taken : Bus.next bus e = some bus') (silent : Silent e) (rest : Silently bus' after) :
    Silently bus after := by
  obtain ⟨schedule, quiet, path⟩ := rest
  refine ⟨e :: schedule, by simpa using ⟨silent, quiet⟩, ?_⟩
  exact Option.bind_eq_some_iff.mpr ⟨bus', taken, path⟩

theorem Silently.single {bus bus' : ActionBus C} {e : BusEvent C}
    (taken : Bus.next bus e = some bus') (silent : Silent e) : Silently bus bus' :=
  .next taken silent (.refl bus')

theorem Silently.sameCalls {before after : ActionBus C} (path : Silently before after) :
    SameCalls before.calls after.calls := by
  obtain ⟨schedule, quiet, path⟩ := path
  induction schedule generalizing before with
  | nil => exact Option.some.inj path ▸ .refl before.calls
  | cons e rest ih =>
    obtain ⟨mid, taken, path⟩ := Option.bind_eq_some_iff.mp path
    exact (next_sameCalls (quiet e List.mem_cons_self) taken).trans
      (ih (fun e' member => quiet e' (List.mem_cons_of_mem _ member)) path)

theorem Step.purposes {s t : State C} {e : Event C} (step : Step s e t) :
    (t.purposes = s.purposes ∧ Silently s.bus t.bus) ∨ ∃ k purpose,
      t.purposes = Function.update s.purposes k (some purpose) ∧
      Bus.next s.bus (.allocate k purpose.channel .custom purpose.message) = some t.bus := by
  cases step with
  | bus only taken => exact .inl ⟨rfl, .single taken only.silent⟩
  | constructed _ attach construct =>
    exact .inl ⟨rfl, .next attach trivial (.single construct trivial)⟩
  | polled _ _ taken | woken _ _ _ taken | missed _ _ taken | accepted _ _ taken
  | unheard _ _ _ taken | stored _ _ _ _ taken => exact .inl ⟨rfl, .single taken trivial⟩
  | connected _ _ _ first second third fourth =>
    exact .inl ⟨rfl, .next first trivial (.next second trivial (.next third trivial
      (.single fourth trivial)))⟩
  | published k outlet execution status timestamp report _ taken =>
    exact .inr ⟨k, .report outlet execution _ status timestamp report, rfl, taken⟩
  | sent c k timestamp goal _ _ _ taken =>
    exact .inr ⟨k, .goal c _ timestamp goal, rfl, taken⟩
  | started | shutdown | stopped | popped | callbackReturned | refused | sendReturned | got
  | cancelPosted | cancelWoken | cancelDriven | cancelServed => exact .inl ⟨rfl, .refl _⟩

theorem next_noted {s t : State C} {e : Event C} (noted : Noted s.bus.calls s.purposes)
    (step : Step s e t) :
    Noted t.bus.calls t.purposes ∧ Extends s.purposes t.purposes := by
  rcases step.purposes with ⟨same, path⟩ | ⟨k, purpose, grown, taken⟩
  · rw [same]
    exact ⟨noted.goOn path.sameCalls, fun _ _ => id⟩
  · obtain ⟨absent, pool, offset, _, bus⟩ := Bus.allocate_eq taken
    have fresh := noted.fresh absent
    rw [grown, bus]
    exact ⟨noted.begin rfl rfl rfl, extends_update fresh purpose⟩

theorem reachable_noted {s : State C} (reach : (machine C).Reachable s) :
    Noted s.bus.calls s.purposes := by
  refine reach.invariant (fun s => Noted s.bus.calls s.purposes) ?_
    fun s e t noted _ taken => (next_noted noted (next_step taken)).1
  rintro s rfl
  constructor <;> simp [State.init, Bus.State.init]

theorem reachable_bus {s : State C} (reach : (machine C).Reachable s) :
    (Bus.machine Channel Nat (Reader C)).Reachable s.bus := by
  refine reach.invariant
    (fun s => (Bus.machine Channel Nat (Reader C)).Reachable s.bus) ?_ ?_
  · rintro s rfl
    exact .start rfl
  · intro s e t before _ taken
    rcases (next_step taken).purposes with ⟨_, schedule, _, path⟩ | ⟨k, purpose, _, began⟩
    · exact before.continues ⟨schedule, path⟩
    · exact before.step (e := .allocate k purpose.channel .custom purpose.message) trivial began

end

end ComIpc.Action
