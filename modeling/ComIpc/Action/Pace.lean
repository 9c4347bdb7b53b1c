import ComIpc.Action.Numbering
import ComIpc.Action.Trace
import ComIpc.Bus.Sources

/-! A server that keeps pace with its goal topic.

A receive of the loop takes the newest header alone, so a goal is lost as soon as the
next one is enqueued before its header was taken. While each goal waits for the one
before it, the calls of the callback and the queue make up the goals taken so far, in
the order in which they were enqueued.
-/

set_option autoImplicit false

namespace ComIpc.Action

open Semantics

def takenBy (sub : Topic.Subscriber) : Nat :=
  match sub.phase with
  | .holding _ _ publication => publication
  | _ => sub.seen

/-- The goals taken so far are in the queue or were handed to the callback. -/
structure Pace (publications : Nat) (sources : List (Option Nat)) (server : Server)
    (sub : Topic.Subscriber) : Prop where
  entered : sub.phase = .idle ∨ sub.phase = .waiting loopReceive ∨
    ∃ header, sub.phase = .holding loopReceive header (sub.seen + 1)
  unread : publications ≤ takenBy sub + 1
  receiving : sub.phase ≠ .idle → server.phase = .receiving
  queue : server.goalQueue.entries = [] ∨
    server.phase = .popping ∧ ∃ e, server.goalQueue.entries = [e]
  handed : server.executions.map Execution.source ++
    server.goalQueue.entries.map (fun e => e.2.2) = sources.take sub.seen

namespace Pace

variable {publications : Nat} {sources : List (Option Nat)} {server : Server}
  {sub : Topic.Subscriber}

theorem taken_idle (idle : sub.phase = .idle ∨ sub.phase = .waiting loopReceive) :
    takenBy sub = sub.seen := by
  rcases idle with idle | waiting
  · rw [takenBy, idle]
  · rw [takenBy, waiting]

theorem publish (pace : Pace publications sources server sub)
    (caughtUp : takenBy sub = publications) (seen : sub.seen ≤ sources.length)
    (source : Option Nat) : Pace (publications + 1) (sources ++ [source]) server sub where
  entered := pace.entered
  unread := by omega
  receiving := pace.receiving
  queue := pace.queue
  handed := by rw [pace.handed, List.take_append_of_le_length seen]

theorem moves (pace : Pace publications sources server sub) {after : Server}
    (here : server.phase ≠ .receiving) (empty : server.phase ≠ .popping)
    (queue : after.goalQueue = server.goalQueue)
    (executions : after.executions = server.executions) :
    Pace publications sources after sub where
  entered := pace.entered
  unread := pace.unread
  receiving := fun busy => absurd (pace.receiving busy) here
  queue := by
    rw [queue]
    exact pace.queue.imp_right fun pops => absurd pops.1 empty
  handed := by rw [queue, executions, pace.handed]

theorem enter (pace : Pace publications sources server sub) {shm : Topic.TopicShm}
    {phase : Topic.Phase} (before : sub.phase = .idle ∨ sub.phase = .waiting loopReceive)
    (empty : server.phase ≠ .popping) (later : sub.lastSeq < shm.seq → sub.seen < publications)
    (entered : Topic.Entered shm sub.lastSeq loopReceive publications phase) :
    Pace publications sources
      { server with phase := if phase = .idle then .popping else .receiving }
      { sub with phase := phase } := by
  have unread : publications ≤ sub.seen + 1 := taken_idle before ▸ pace.unread
  have queue : server.goalQueue.entries = [] :=
    pace.queue.resolve_right fun pops => empty pops.1
  cases entered with
  | failed => exact ⟨.inl rfl, unread, fun busy => absurd rfl busy, .inl queue, pace.handed⟩
  | blocked => exact ⟨.inr (.inl rfl), unread, fun _ => rfl, .inl queue, pace.handed⟩
  | taken fresh =>
    -- at most one goal is unread, so the newest one is the next one
    have next : publications = sub.seen + 1 := by
      have := later fresh
      omega
    exact ⟨.inr (.inr ⟨shm.newest, by rw [next]⟩), Nat.le_succ _, fun _ => rfl, .inl queue,
      pace.handed⟩

theorem accept (pace : Pace publications sources server sub) {header : MessageHeader}
    {delivered : Topic.Subscriber} {goalId : Int32} {data : Bytes} {source : Option Nat}
    {queue : OrderedMap Int32 (Bytes × Option Nat)} {active : Finset Int32}
    (held : sub.phase = .holding loopReceive header (sub.seen + 1))
    (idle : delivered.phase = .idle) (seen : delivered.seen = sub.seen + 1)
    (known : sources[sub.seen]? = some source)
    (inserted : queue = server.goalQueue.insert goalId (data, source)) :
    Pace publications sources
      { server with goalQueue := queue, activeGoals := active, phase := .popping } delivered := by
  -- the loop has emptied the queue before it receives again
  have receiving : server.phase = .receiving := pace.receiving (by simp [held])
  have empty : server.goalQueue.entries = [] :=
    pace.queue.resolve_right fun pops => by simp [receiving] at pops
  have only : queue.entries = [(goalId, data, source)] := by
    simp only [inserted, OrderedMap.insert, empty, OrderedMap.insertEntry]
  refine ⟨.inl idle, ?_, fun busy => absurd idle busy, .inr ⟨rfl, _, only⟩, ?_⟩
  · have := pace.unread
    simp only [takenBy, held, idle, seen] at this ⊢
    exact this
  · have handed := pace.handed
    rw [empty, List.map_nil, List.append_nil] at handed
    rw [only, seen, List.take_add_one, known, ← handed]
    rfl

theorem pop (pace : Pace publications sources server sub) (popping : server.phase = .popping)
    (natural : ∀ e ∈ server.goalQueue.entries, e.1 ≠ -1) :
    Pace publications sources server.pop sub := by
  have idle : sub.phase = .idle := by
    by_contra busy
    simpa [popping] using pace.receiving busy
  have handed := pace.handed
  unfold Server.pop
  cases first : server.goalQueue.first? with
  | none =>
    have empty := OrderedMap.first?_none first
    exact ⟨pace.entered, pace.unread, fun busy => absurd idle busy, .inl empty, handed⟩
  | some entry =>
    obtain ⟨⟨goalId, data, source⟩, rest⟩ := entry
    have entries := OrderedMap.first?_entries first
    have valid : goalId ≠ -1 := natural (goalId, data, source) (by simp [entries])
    have last : rest.entries = [] := by
      rcases pace.queue with empty | ⟨_, e, only⟩
      · simp [entries] at empty
      · simpa [entries] using (List.cons.inj (entries.symm.trans only)).2
    simp only [valid, if_false]
    refine ⟨pace.entered, pace.unread, fun busy => absurd idle busy, .inl last, ?_⟩
    rw [entries, last] at handed
    simpa [last] using handed

end Pace

section
variable {C : Type}

/-- The server has taken the header of every goal that is enqueued. -/
def CaughtUp (s : State C) : Prop :=
  ∀ sub ∈ (s.bus.topics .goal).subscribers .server,
    takenBy sub = (s.bus.topics .goal).published.length

/-- Goals are sent to a server whose receive buffer holds them, and a goal is enqueued only
where there is room. -/
def Sends (room : State C → Prop) (s : State C) : Event C → Prop
  | .sendGoal _ _ _ goal _ => s.server.phase ≠ .absent ∧
    GoalHeader.fixedSize + goal.bytes.length ≤ maxMsgSize
  | .enqueue k _ => ∀ call ∈ s.bus.calls k, call.topic = .goal → room s
  | _ => True

abbrev KeepsPace (s : State C) : Event C → Prop := Sends CaughtUp s

def Elsewhere (bus : ActionBus C) (e : BusEvent C) : Prop := ∀ e', bus.inTopic e ≠ some (.goal, e')

theorem foreign_elsewhere {bus : ActionBus C} {e : BusEvent C} (foreign : Foreign e = true) :
    Elsewhere bus e := by
  intro e' inside
  cases e with
  | allocate | copyIn | loanRaw | writeLoaned => cases inside
  | enqueue => contradiction
  | publishLoaned topic =>
    obtain ⟨_, _, same⟩ := Option.map_eq_some_iff.mp inside
    cases same
    contradiction
  | attach topic | construct topic | destroy topic | receive topic | wake topic | finish topic =>
    cases inside
    contradiction

theorem outlet_ne_goal (outlet : Outlet) : outlet.channel ≠ .goal := by
  cases outlet <;> exact Channel.noConfusion

theorem outlet_elsewhere {bus : ActionBus C} {e : BusEvent C} {outlet : Outlet}
    {e' : Topic.Event (Reader C)} (inside : bus.inTopic e = some (outlet.channel, e')) :
    Elsewhere bus e := by
  intro e'' goal
  rw [inside, Option.some.injEq, Prod.mk.injEq] at goal
  exact outlet_ne_goal outlet goal.1

theorem outside_elsewhere {bus : ActionBus C} {e : BusEvent C} (outside : bus.inTopic e = none) :
    Elsewhere bus e := fun e' inside => by simp [outside] at inside

def Small (s : State C) : Prop :=
  ∀ k c goalId timestamp goal, s.purposes k = some (.goal c goalId timestamp goal) →
    s.server.phase ≠ .absent ∧ GoalHeader.fixedSize + goal.bytes.length ≤ maxMsgSize

structure Paced (s : State C) : Prop where
  own : none ∉ s.bus.sources .goal
  small : Small s
  absent : s.server.phase = .absent → (s.bus.topics .goal).subscribers .server = none ∧
    s.server.executions = [] ∧ s.server.goalQueue.entries = []
  pace : s.server.phase ≠ .absent → ∃ sub,
    (s.bus.topics .goal).subscribers .server = some sub ∧
    Pace (s.bus.topics .goal).published.length (s.bus.sources .goal) s.server sub

def SameGoals (before after : ActionBus C) : Prop :=
  after.topics .goal = before.topics .goal ∧ after.sources .goal = before.sources .goal

theorem SameGoals.trans {first second third : ActionBus C} (before : SameGoals first second)
    (after : SameGoals second third) : SameGoals first third :=
  ⟨after.1.trans before.1, after.2.trans before.2⟩

theorem Paced.same {s t : State C} (paced : Paced s) (small : Small t)
    (goals : SameGoals s.bus t.bus) (phase : t.server.phase = s.server.phase)
    (queue : t.server.goalQueue = s.server.goalQueue)
    (executions : t.server.executions = s.server.executions) : Paced t where
  own := goals.2 ▸ paced.own
  small := small
  absent := by
    rw [phase, goals.1, executions, queue]
    exact paced.absent
  pace := by
    rw [phase, goals.1, goals.2]
    intro present
    obtain ⟨sub, alive, pace⟩ := paced.pace present
    refine ⟨sub, alive, pace.entered, pace.unread, ?_, ?_, ?_⟩
    · rw [phase]
      exact pace.receiving
    · rw [phase, queue]
      exact pace.queue
    · rw [queue, executions]
      exact pace.handed

theorem Paced.moves {s t : State C} (paced : Paced s) (small : Small t) (bus : t.bus = s.bus)
    (present : s.server.phase ≠ .absent) (here : s.server.phase ≠ .receiving)
    (empty : s.server.phase ≠ .popping) (later : t.server.phase ≠ .absent)
    (queue : t.server.goalQueue = s.server.goalQueue)
    (executions : t.server.executions = s.server.executions) : Paced t where
  own := bus ▸ paced.own
  small := small
  absent := fun gone => absurd gone later
  pace := by
    obtain ⟨sub, alive, pace⟩ := paced.pace present
    rw [bus]
    exact fun _ => ⟨sub, alive, pace.moves here empty queue executions⟩

variable [DecidableEq C]

theorem Step.present {s t : State C} {e : Event C} (step : Step s e t)
    (present : s.server.phase ≠ .absent) : t.server.phase ≠ .absent := by
  cases step with
  | constructed | started | stopped | missed | callbackReturned => exact ServerPhase.noConfusion
  | polled | woken =>
    simp only [phaseAfter]
    split
    · split <;> exact ServerPhase.noConfusion
    · exact ServerPhase.noConfusion
  | accepted _ _ _ _ accepted =>
    unfold Server.accept at accepted
    split at accepted
    · obtain ⟨_, _, accepted⟩ := Option.bind_eq_some_iff.mp accepted
      exact Option.some.inj accepted ▸ ServerPhase.noConfusion
    · exact Option.some.inj accepted ▸ ServerPhase.noConfusion
  | popped =>
    simp only [Server.pop]
    split
    · exact ServerPhase.noConfusion
    · split <;> exact ServerPhase.noConfusion
  | cancelServed => simpa using present
  | _ => exact present

theorem Small.step {s t : State C} {e : Event C} (small : Small s) (keeps : KeepsPace s e)
    (step : Step s e t) : Small t := by
  intro k c goalId timestamp goal meant
  rcases step.goals meant with old | ⟨rfl, _⟩
  · obtain ⟨present, fits⟩ := small k c goalId timestamp goal old
    exact ⟨step.present present, fits⟩
  · exact ⟨step.present keeps.1, keeps.2⟩

theorem Elsewhere.same {before after : ActionBus C} {e : BusEvent C}
    (elsewhere : Elsewhere before e) (taken : Bus.next before e = some after) :
    SameGoals before after := Bus.next_elsewhere elsewhere taken

theorem publication_goal {s : State C} (reach : (machine C).Reachable s)
    (own : none ∉ s.bus.sources .goal) {n : Nat} {header : MessageHeader}
    (found : (s.bus.topics .goal).published[n]? = some header) :
    ∃ k c goalId timestamp goal, (s.bus.sources .goal)[n]? = some (some k) ∧
      s.purposes k = some (.goal c goalId timestamp goal) ∧
      header.dataSize.toNat = GoalHeader.fixedSize + goal.bytes.length := by
  have sound := Bus.reachable_sound (reachable_bus reach)
  have bound : n < (s.bus.sources .goal).length :=
    sound.aligned .goal ▸ (List.getElem?_eq_some_iff.mp found).1
  obtain ⟨k, source⟩ : ∃ k, (s.bus.sources .goal)[n]? = some (some k) := by
    rw [List.getElem?_eq_getElem bound]
    cases source : (s.bus.sources .goal)[n] with
    | none => exact absurd (source ▸ List.getElem_mem bound) own
    | some k => exact ⟨k, rfl⟩
  obtain ⟨call, header', known, topic, found', describes⟩ := sound.sourced .goal n k source
  obtain rfl := Option.some.inj (found.symm.trans found')
  have noted := reachable_noted reach
  rcases noted.meant k call known with ⟨purpose, meant⟩ | ⟨_, other⟩
  · obtain ⟨call', known', channel, _, data⟩ := noted.given k purpose meant
    obtain rfl := Option.some.inj (known.symm.trans known')
    cases purpose with
    | goal c goalId timestamp goal =>
      refine ⟨k, c, goalId, timestamp, goal, source, meant, ?_⟩
      rw [describes.size, data, Purpose.message, GoalHeader.length_image, GoalHeader.ofGoal]
    | report outlet => exact absurd (channel.symm.trans topic) (outlet_ne_goal outlet)
  · exact Channel.noConfusion (topic.symm.trans other)

theorem Paced.constructed {s : State C} (reach : (machine C).Reachable s) (paced : Paced s)
    {attached bus : ActionBus C} (absent : s.server.phase = .absent)
    (attach : Bus.next s.bus (.attach .goal) = some attached)
    (construct : Bus.next attached (.construct .goal .server) = some bus) :
    Paced { s with bus := bus, server := { s.server with phase := .constructed } } := by
  -- a goal on record would have been sent to a server that is there
  have none_ : (s.bus.topics .goal).published = [] := by
    cases published : (s.bus.topics .goal).published with
    | nil => rfl
    | cons header rest =>
      have first : (s.bus.topics .goal).published[0]? = some header := by rw [published]; rfl
      obtain ⟨k, c, goalId, timestamp, goal, _, meant, _⟩ := publication_goal reach paced.own first
      exact absurd absent (paced.small k c goalId timestamp goal meant).1
  have sources : s.bus.sources .goal = [] := by
    rw [← List.length_eq_zero_iff, (Bus.reachable_sound (reachable_bus reach)).aligned, none_]
    rfl
  obtain ⟨attachStep, attachSources⟩ := Bus.onTopic_here attach
  obtain ⟨constructStep, constructSources⟩ := Bus.onTopic_here construct
  obtain ⟨shm, _, _, topic⟩ := Topic.next_construct constructStep
  have nothing : (attached.topics .goal).published = [] :=
    (Topic.next_quiet (e := .attach) trivial attachStep).trans none_
  have empty : bus.sources .goal = [] := by rw [constructSources, attachSources, sources]
  obtain ⟨_, executions, queue⟩ := paced.absent absent
  refine ⟨by simp [empty], fun k c goalId timestamp goal meant => ?_,
    fun gone => ServerPhase.noConfusion gone, fun _ => ?_⟩
  · exact absurd absent (paced.small k c goalId timestamp goal meant).1
  · have alive := Topic.put_self { attached.topics .goal with shm := shm } (.server : Reader C)
      ⟨(attached.topics .goal).shm.seq, .idle, (attached.topics .goal).published.length,
        (attached.topics .goal).published.length, []⟩
    refine ⟨_, topic ▸ alive, .inl rfl, ?_, fun busy => absurd rfl busy, .inl queue, ?_⟩
    · simp [topic, takenBy]
    · simp [executions, queue, empty]

theorem Paced.entered {s : State C} (reach : (machine C).Reachable s) (paced : Paced s)
    {bus : ActionBus C} {sub : Topic.Subscriber} {shm : Topic.TopicShm} {phase : Topic.Phase}
    (present : s.server.phase ≠ .absent) (filled : s.server.phase ≠ .popping)
    (alive : (s.bus.topics .goal).subscribers .server = some sub)
    (before : sub.phase = .idle ∨ sub.phase = .waiting loopReceive)
    (entered : Topic.Entered (s.bus.topics .goal).shm sub.lastSeq loopReceive
      (s.bus.topics .goal).published.length phase)
    (topic : bus.topics .goal =
      { s.bus.topics .goal with shm := shm }.put .server { sub with phase := phase })
    (sources : bus.sources = s.bus.sources) :
    Paced { s with bus := bus, server := { s.server with phase := phaseAfter bus } } := by
  obtain ⟨sub', alive', pace⟩ := paced.pace present
  obtain rfl := Option.some.inj (alive.symm.trans alive')
  have consistent := Bus.reachable_consistent (reachable_bus reach) .goal
  have after : phaseAfter bus = if phase = .idle then .popping else .receiving := by
    simp only [phaseAfter, topic, Topic.put_self]
  have later : phaseAfter bus ≠ .absent := by
    rw [after]
    split <;> exact ServerPhase.noConfusion
  refine ⟨sources ▸ paced.own, fun k c goalId timestamp goal meant =>
    ⟨later, (paced.small k c goalId timestamp goal meant).2⟩, fun gone => absurd gone later,
    fun _ => ?_⟩
  refine ⟨{ sub with phase := phase }, by rw [topic, Topic.put_self], ?_⟩
  have follows := consistent.follows _ sub alive
  have entry := pace.enter before filled
    (fun fresh => (Topic.later_of_passed consistent.tracks follows fresh).1) entered
  simp only [topic, sources, after, Topic.put_published]
  exact entry

theorem Paced.finish {s : State C} (reach : (machine C).Reachable s) (paced : Paced s)
    (receiving : s.server.phase = .receiving) {bus : ActionBus C}
    (taken : Bus.next s.bus (.finish .goal .server) = some bus) :
    ∃ sub header delivered r, (s.bus.topics .goal).subscribers .server = some sub ∧
      sub.phase = .holding loopReceive header (sub.seen + 1) ∧ delivered.phase = .idle ∧
      delivered.seen = sub.seen + 1 ∧
      bus.topics .goal = (s.bus.topics .goal).put .server delivered ∧
      bus.sources = s.bus.sources ∧ s.copied .goal .server = some r ∧
      (s.bus.sources .goal)[sub.seen]? = some r.source := by
  obtain ⟨sub, after, alive, stepped, rfl⟩ := Bus.finish_eq taken
  obtain ⟨sub', call, header, publication, delivered, alive', held, done, rfl⟩ :=
    Topic.next_finish stepped
  obtain rfl := Option.some.inj (alive.symm.trans alive')
  obtain ⟨sub', alive', pace⟩ := paced.pace (by simp [receiving])
  obtain rfl := Option.some.inj (alive.symm.trans alive')
  obtain ⟨rfl, rfl⟩ : call = loopReceive ∧ publication = sub.seen + 1 := by
    rcases pace.entered with idle | waiting | ⟨_, holding⟩
    · simp [held] at idle
    · simp [held] at waiting
    · rw [held, Topic.Phase.holding.injEq] at holding
      exact ⟨holding.1, holding.2.2⟩
  have follows := (Bus.reachable_consistent (reachable_bus reach) .goal).follows _ sub alive
  have found : (s.bus.topics .goal).published[sub.seen]? = some header := by
    simpa [Topic.nth] using (follows.holding _ header _ held).2
  obtain ⟨k, c, goalId, timestamp, goal, source, meant, size⟩ :=
    publication_goal reach paced.own found
  have fits : MessageHeader.bytes + header.dataSize.toNat ≤ receiveBuffer := by
    have := (paced.small k c goalId timestamp goal meant).2
    simp only [receiveBuffer]
    omega
  have finished : delivered.phase = .idle ∧ delivered.seen = sub.seen + 1 := by
    simp only [Topic.finish, if_pos fits] at done
    split at done
    · exact Option.some.inj done ▸ ⟨rfl, rfl⟩
    · contradiction
  obtain ⟨r, copied, from_⟩ : ∃ r, s.copied .goal .server = some r ∧
      r.source = s.bus.source .goal (sub.seen + 1) := by
    simp only [State.copied, alive, Option.bind_eq_bind, Option.bind_some, Bus.State.copyOut,
      held, if_pos fits, List.head?_cons]
    exact ⟨_, rfl, rfl⟩
  refine ⟨sub, header, delivered, r, alive, held, finished.1, finished.2, by simp, rfl, copied, ?_⟩
  simp [from_, source, Bus.State.source, Topic.nth]

theorem Paced.accepted {s : State C} (reach : (machine C).Reachable s) (paced : Paced s)
    (receiving : s.server.phase = .receiving) {bus : ActionBus C} {residue : Bytes}
    {r : Bus.Receipt Channel Nat (Reader C)} {server : Server}
    (taken : Bus.next s.bus (.finish .goal .server) = some bus)
    (copied : s.copied .goal .server = some r) (intact : r.intact = true)
    (accepted : s.server.accept residue r.header r.payload r.source = some server) :
    Paced { s with bus := bus, server := server } := by
  obtain ⟨sub, header, delivered, r', alive, held, idle, seen, topic, sources, copied', known⟩ :=
    paced.finish reach receiving taken
  obtain rfl := Option.some.inj (copied.symm.trans copied')
  obtain ⟨sub', alive', pace⟩ := paced.pace (by simp [receiving])
  obtain rfl := Option.some.inj (alive.symm.trans alive')
  obtain ⟨k, c, goalId, timestamp, goal, _, _, type, size, payload⟩ :=
    copied_goal reach copied intact
  have enough : GoalHeader.fixedSize ≤ r.header.dataSize.toNat := size ▸ Nat.le_add_right _ _
  rw [payload] at accepted
  simp only [Server.accept, type, enough, and_self, if_true, readGoal_image,
    Option.bind_eq_bind, Option.bind_some, Option.some.injEq] at accepted
  subst accepted
  refine ⟨sources ▸ paced.own, fun k c goalId timestamp goal meant =>
    ⟨ServerPhase.noConfusion, (paced.small k c goalId timestamp goal meant).2⟩,
    fun gone => ServerPhase.noConfusion gone, fun _ => ?_⟩
  refine ⟨delivered, by rw [topic, Topic.put_self], ?_⟩
  simp only [topic, sources, Topic.put_published]
  exact pace.accept held idle seen known rfl

theorem Paced.enqueued {s : State C} (reach : (machine C).Reachable s) (paced : Paced s)
    {bus : ActionBus C} {k : Nat} {now : Int64} (keeps : KeepsPace s (.enqueue k now))
    (taken : Bus.next s.bus (.enqueue k now) = some bus) : Paced { s with bus := bus } := by
  obtain ⟨call, after, found, _, stepped, rfl⟩ := Bus.enqueue_eq taken
  by_cases topic : call.topic = .goal
  · have caughtUp := keeps call found topic
    rw [topic] at stepped
    obtain ⟨published, subscribers⟩ := Topic.next_publish (.inl stepped)
    have goals : Function.update s.bus.topics call.topic after .goal = after := by simp [topic]
    have record : Function.update s.bus.sources call.topic
        (s.bus.sources call.topic ++ [some k]) .goal = s.bus.sources .goal ++ [some k] := by
      simp [topic]
    have sound := Bus.reachable_sound (reachable_bus reach)
    refine ⟨?_, paced.small, ?_, ?_⟩
    · simpa only [record, List.mem_append, List.mem_singleton, reduceCtorEq, or_false]
        using paced.own
    · simpa only [goals, subscribers] using paced.absent
    · intro present
      obtain ⟨sub, alive, pace⟩ := paced.pace present
      have follows := (Bus.reachable_consistent (reachable_bus reach) .goal).follows _ sub alive
      refine ⟨sub, by simpa only [goals, subscribers] using alive, ?_⟩
      simp only [goals, published, record, List.length_append, List.length_singleton]
      exact pace.publish (caughtUp sub alive)
        (sound.aligned .goal ▸ follows.seen_le) _
  · have elsewhere : Elsewhere s.bus (.enqueue k now) := by
      intro e' inside
      rw [Bus.State.inTopic, found, Option.map_some, Option.some.injEq, Prod.mk.injEq] at inside
      exact topic inside.1
    exact paced.same paced.small (elsewhere.same taken) rfl rfl rfl

theorem queue_natural {s : State C} (reach : (machine C).Reachable s)
    (traced : ServerTraced s.purposes s.server) :
    ∀ e ∈ s.server.goalQueue.entries, e.1 ≠ -1 := by
  intro e member negative
  obtain ⟨k, c, timestamp, goal, _, meant, _⟩ := traced.queued e member
  obtain ⟨_, _, natural, _⟩ := (reachable_counted reach).goals k c e.1 timestamp goal meant
  rw [negative] at natural
  exact absurd natural (by decide)

theorem Paced.step {s t : State C} {e : Event C} (reach : (machine C).Reachable s)
    (traced : ServerTraced s.purposes s.server) (paced : Paced s) (keeps : KeepsPace s e)
    (intact : GoalsIntact s e) (step : Step s e t) : Paced t := by
  have small := paced.small.step keeps step
  cases step with
  | bus only taken =>
    cases only with
    | enqueue k now => exact paced.enqueued reach keeps taken
    | listen | listenWake => exact paced.same small ((outlet_elsewhere rfl).same taken) rfl rfl rfl
    | copyIn => exact paced.same small ((outside_elsewhere rfl).same taken) rfl rfl rfl
    | traffic foreign =>
      exact paced.same small ((foreign_elsewhere foreign).same taken) rfl rfl rfl
  | constructed absent attach construct => exact paced.constructed reach absent attach construct
  | started constructed =>
    exact paced.moves small rfl (by simp [constructed]) (by simp [constructed])
      (by simp [constructed]) ServerPhase.noConfusion rfl rfl
  | stopped stop polling =>
    exact paced.moves small rfl (by simp [polling]) (by simp [polling]) (by simp [polling])
      ServerPhase.noConfusion rfl rfl
  | callbackReturned executing =>
    exact paced.moves small rfl (by simp [executing]) (by simp [executing]) (by simp [executing])
      ServerPhase.noConfusion rfl rfl
  | polled stop polling taken =>
    obtain ⟨stepped, sources⟩ := Bus.onTopic_here taken
    obtain ⟨sub, phase, shm, alive, idle, _, entered, topic⟩ := Topic.next_receive stepped
    exact paced.entered reach (by simp [polling]) (by simp [polling]) alive (.inl idle) entered
      topic sources
  | woken cause stop receiving taken =>
    obtain ⟨stepped, sources⟩ := Bus.onTopic_here taken
    obtain ⟨sub, call, phase, shm, alive, waiting, _, entered, topic⟩ := Topic.next_wake stepped
    obtain ⟨sub', alive', pace⟩ := paced.pace (by simp [receiving])
    obtain rfl := Option.some.inj (alive.symm.trans alive')
    obtain rfl : call = loopReceive := by
      rcases pace.entered with idle | same | ⟨_, held⟩
      · simp [waiting] at idle
      · simpa [waiting] using same
      · simp [waiting] at held
    exact paced.entered reach (by simp [receiving]) (by simp [receiving]) alive (.inr waiting)
      entered topic sources
  | missed residue receiving taken nothing =>
    obtain ⟨_, _, _, _, _, _, _, _, _, _, copied, _⟩ := paced.finish reach receiving taken
    simp [nothing] at copied
  | accepted residue receiving taken copied accepted =>
    exact paced.accepted reach receiving taken copied (intact _ copied) accepted
  | popped popping =>
    obtain ⟨sub, alive, pace⟩ := paced.pace (by simp [popping])
    refine ⟨paced.own, small, fun gone => ?_, fun _ =>
      ⟨sub, alive, pace.pop popping (queue_natural reach traced)⟩⟩
    exact absurd gone (Step.present (.popped popping) (by simp [popping]))
  | connected c pid absent first second third fourth =>
    have joins := fun (bus : ActionBus C) (outlet : Outlet) (attached after : ActionBus C)
        (attach : Bus.next bus (.attach outlet.channel) = some attached)
        (construct : Bus.next attached (.construct outlet.channel (.client c outlet)) =
          some after) =>
      ((outlet_elsewhere rfl).same attach).trans ((outlet_elsewhere rfl).same construct)
    exact paced.same small ((joins _ .feedback _ _ first second).trans
      (joins _ .result _ _ third fourth)) rfl rfl rfl
  | unheard _ _ _ taken | stored _ _ _ _ taken =>
    exact paced.same small ((outlet_elsewhere rfl).same taken) rfl rfl rfl
  | published _ _ _ _ _ _ _ taken | sent _ _ _ _ _ _ _ taken =>
    exact paced.same small ((outside_elsewhere rfl).same taken) rfl rfl rfl
  | shutdown | refused | sendReturned | got | cancelPosted | cancelWoken | cancelDriven =>
    exact paced.same small ⟨rfl, rfl⟩ rfl rfl rfl
  | cancelServed => exact paced.same small ⟨rfl, rfl⟩ (by simp) (by simp) (by simp)

end

end ComIpc.Action
