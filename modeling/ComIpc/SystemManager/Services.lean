import ComIpc.SystemManager.Isolation

/-! The service registry, `createOrGetService`, and which server a client is connected to.

A server that is constructed again wipes the object of its predecessor: it unlinks it and
creates a new one under the same name. Mappings of the old object live on, so only the
clients that are constructed later meet the new server.
-/

set_option autoImplicit false

namespace ComIpc.SystemManager

open Semantics

abbrev maxServices : Nat := 20

/-- `ServiceInfo` has the fields of `TopicInfo`. -/
abbrev ServiceInfo := TopicInfo

/-- The part of `SystemManagerShm` that `createOrGetService` works on. -/
structure ServiceTable where
  mutex : RobustMutex
  serviceCount : Nat
  services : Fin maxServices → ServiceInfo

namespace ServiceTable

def init : ServiceTable := ⟨.unlocked, 0, fun _ => .zero⟩

-- The lookup and the registration of a service are those of a topic, on the other table.

def asTopics (table : ServiceTable) : SystemManagerShm :=
  ⟨table.mutex, table.serviceCount, table.services⟩

def ofTopics (mgr : SystemManagerShm) : ServiceTable := ⟨mgr.mutex, mgr.topicCount, mgr.topics⟩

def lockRobust (table : ServiceTable) : Option ServiceTable :=
  table.asTopics.lockRobust.map ofTopics

def unlock (table : ServiceTable) : ServiceTable := ofTopics table.asTopics.unlock

def findService (table : ServiceTable) (name : CString) : Option (Fin maxServices) :=
  table.asTopics.findTopic name

def addService (table : ServiceTable) (name : CString) (room : table.serviceCount < maxServices) :
    ServiceTable := ofTopics (table.asTopics.addTopic name room)

theorem lockRobust_free {table : ServiceTable} (free : table.mutex = .unlocked) :
    table.lockRobust = some { table with mutex := .held } := by
  rw [lockRobust, SystemManagerShm.lockRobust_free free]
  rfl

theorem unlock_taken {table : ServiceTable} (free : table.mutex = .unlocked) :
    ({ table with mutex := .held } : ServiceTable).unlock = table := by
  have free : table.asTopics.mutex = .unlocked := free
  exact congrArg ofTopics (SystemManagerShm.unlock_taken free)

end ServiceTable

def servicePrefix : Bytes :=
  ['/', 'r', 'o', 's', '_', 'i', 'p', 'c', '_', 's', 'e', 'r', 'v', 'i', 'c', 'e', '_'].map
    fun c => UInt8.ofNat c.toNat

def serviceShmName (name : CString) : Bytes := rewriteSlashes (servicePrefix ++ name.bytes)

/-- The restart of a server: the old object is unlinked and a new one created. -/
def wipe (failures : Failures) (space : ShmSpace Bytes) (path : Bytes) :
    ShmSpace Bytes × Option Nat :=
  let space := space.unlink path
  if failures.openExclusive then (space, none)
  else
    match space.openExclusive path with
    | none => (space, none)
    | some (space, obj) =>
      -- an object that cannot be sized or mapped stays linked, and the service registered
      (space, if failures.ftruncate || failures.mmap then none else some obj)

def createOrGetService (failures : Failures) (table : ServiceTable) (space : ShmSpace Bytes)
    (name : CString) (isServer : Bool) :
    Option (ServiceTable × ShmSpace Bytes × Option Nat) := do
  let table ← table.lockRobust
  match table.findService name with
  | some _ =>
    if isServer then
      let wiped := wipe failures space (serviceShmName name)
      some (table.unlock, wiped.1, wiped.2)
    else if failures.openExisting then some (table.unlock, space, none)
    else
      match space.openExisting (serviceShmName name) with
      | none => some (table.unlock, space, none)
      | some obj => some (table.unlock, space, if failures.mmap then none else some obj)
  | none =>
    if isServer = false then some (table.unlock, space, none)
    else if room : table.serviceCount < maxServices then
      match createOrReclaim failures space (serviceShmName name) with
      | (space, none) => some (table.unlock, space, none)
      | (space, some obj) =>
        if failures.ftruncate || failures.mmap then some (table.unlock, space, none)
        else some ((table.addService name room).unlock, space, some obj)
    else some (table.unlock, space, none)

/-! ### Histories of constructions and destructions -/

/-- A `ServiceServer` or a `ServiceClient` and the object that it has mapped. -/
structure ServiceHandle where
  name : CString
  isServer : Bool
  object : Nat
  deriving DecidableEq

/-- All handles in the order of their construction, and the positions of those that were
destroyed or whose process is gone. -/
structure Services where
  table : ServiceTable
  space : ShmSpace Bytes
  handles : List ServiceHandle
  destroyed : List Nat

inductive ServiceEvent where
  /-- The constructor of a server, or one attempt of the constructor of a client. -/
  | construct (name : CString) (isServer : Bool)
  | destroy (handle : Nat)
  deriving DecidableEq

def nextService (s : Services) : ServiceEvent → Option Services
  | .construct name isServer => do
    let (table, space, object) ← createOrGetService .none s.table s.space name isServer
    some ⟨table, space,
      s.handles ++ (object.map fun obj => ⟨name, isServer, obj⟩).toList, s.destroyed⟩
  | .destroy handle => do
    guard (handle < s.handles.length ∧ handle ∉ s.destroyed)
    some { s with destroyed := s.destroyed ++ [handle] }

def serviceHistories : Machine Services ServiceEvent where
  initial := fun s => s.table = .init ∧ s.handles = [] ∧ s.destroyed = []
  next := nextService

theorem wipe_none (space : ShmSpace Bytes) (path : Bytes) :
    wipe .none space path = (space.create path, some space.count) := by
  simp [wipe, Failures.none, ShmSpace.openExclusive, create_unlink]

inductive ServiceChange (s t : Services) : ServiceEvent → Prop where
  | server (name : CString) : t.space = s.space.create (serviceShmName name) →
      t.handles = s.handles ++ [⟨name, true, s.space.count⟩] → t.destroyed = s.destroyed →
      ServiceChange s t (.construct name true)
  | client (name : CString) (obj : Nat) : s.space.linked (serviceShmName name) = some obj →
      t.space = s.space → t.handles = s.handles ++ [⟨name, false, obj⟩] →
      t.destroyed = s.destroyed → ServiceChange s t (.construct name false)
  | none (e : ServiceEvent) : t.space = s.space → t.handles = s.handles → ServiceChange s t e

theorem nextService_change {s t : Services} {e : ServiceEvent}
    (free : s.table.mutex = .unlocked) (taken : nextService s e = some t) :
    ServiceChange s t e ∧ t.table.mutex = .unlocked := by
  cases e with
  | destroy handle =>
    simp only [nextService, Option.bind_eq_bind, Option.bind_eq_some_iff,
      Option.some.injEq] at taken
    obtain ⟨_, _, rfl⟩ := taken
    exact ⟨.none _ rfl rfl, free⟩
  | construct name isServer =>
    have held := ServiceTable.lockRobust_free free
    simp only [nextService, createOrGetService, held, Option.bind_eq_bind, Option.bind_some,
      wipe_none, createOrReclaim_none] at taken
    cases found : ServiceTable.findService { s.table with mutex := .held } name with
    | some i =>
      simp only [found] at taken
      cases isServer with
      | true =>
        obtain rfl : _ = t := by simpa using taken
        exact ⟨.server name rfl rfl rfl, rfl⟩
      | false =>
        cases linked : s.space.linked (serviceShmName name) with
        | none =>
          obtain rfl : _ = t := by
            simpa [Failures.none, ShmSpace.openExisting, linked] using taken
          exact ⟨.none _ rfl rfl, rfl⟩
        | some obj =>
          obtain rfl : _ = t := by
            simpa [Failures.none, ShmSpace.openExisting, linked] using taken
          exact ⟨.client name obj linked rfl rfl rfl, rfl⟩
    | none =>
      simp only [found] at taken
      cases isServer with
      | false =>
        obtain rfl : _ = t := by simpa using taken
        exact ⟨.none _ rfl rfl, rfl⟩
      | true =>
        by_cases room : s.table.serviceCount < maxServices
        · obtain rfl : _ = t := by simpa [room, Failures.none] using taken
          exact ⟨.server name rfl rfl rfl, rfl⟩
        · obtain rfl : _ = t := by simpa [room] using taken
          exact ⟨.none _ rfl rfl, rfl⟩

/-! ### The server of a client -/

/-- The server is the last one of its name that was constructed; `later` are the handles
after it. -/
def Latest (name : CString) (handles : List ServiceHandle) (server : ServiceHandle)
    (later : List ServiceHandle) : Prop :=
  (∃ before, handles = before ++ server :: later) ∧ server.name = name ∧
    server.isServer = true ∧ ∀ h ∈ later, h.name = name → h.isServer = false

/-- The handles of the name that were constructed after its latest server refer to the
object of that server, and so will the next one. -/
def Connected (name : CString) (s : Services) : Prop :=
  ∀ server later, Latest name s.handles server later →
    s.space.linked (serviceShmName name) = some server.object ∧
    ∀ h ∈ later, h.name = name → h.object = server.object

/-- No server of another name is constructed whose object has the same name. -/
def Unshadowed (name : CString) (_ : Services) : ServiceEvent → Prop
  | .construct other true => serviceShmName other = serviceShmName name → other = name
  | _ => True

instance (name : CString) (s : Services) (e : ServiceEvent) : Decidable (Unshadowed name s e) :=
  match e with
  | .construct _ true => inferInstanceAs (Decidable (_ → _))
  | .construct _ false | .destroy _ => isTrue trivial

theorem Latest.append {name : CString} {handles later : List ServiceHandle}
    {h server : ServiceHandle} (latest : Latest name (handles ++ [h]) server later) :
    (later = [] ∧ server = h) ∨
      ∃ rest, later = rest ++ [h] ∧ Latest name handles server rest ∧
        (h.name = name → h.isServer = false) := by
  obtain ⟨⟨before, split⟩, named, isServer, last⟩ := latest
  rcases List.eq_nil_or_concat later with rfl | ⟨rest, k, rfl⟩
  · have ends := List.append_inj_right' split rfl
    exact .inl ⟨rfl, (List.singleton_inj.mp ends).symm⟩
  · rw [List.concat_eq_append, ← List.cons_append, ← List.append_assoc] at split
    obtain ⟨front, ends⟩ := List.append_inj' split rfl
    obtain rfl := List.singleton_inj.mp ends
    refine .inr ⟨rest, List.concat_eq_append, ⟨⟨before, front⟩, named, isServer, ?_⟩, ?_⟩
    · exact fun other member => last other (by simp [member])
    · exact last h (by simp)

theorem Connected.change {name : CString} {s t : Services} {e : ServiceEvent}
    (connected : Connected name s) (apart : Unshadowed name s e) (change : ServiceChange s t e) :
    Connected name t := by
  intro server later latest
  cases change with
  | none e space handles =>
    rw [handles] at latest
    rw [space]
    exact connected server later latest
  | client other obj linked space handles _ =>
    rw [handles] at latest
    rw [space]
    rcases latest.append with ⟨_, rfl⟩ | ⟨rest, rfl, before, _⟩
    · exact absurd latest.2.2.1 Bool.false_ne_true
    · obtain ⟨current, same⟩ := connected server rest before
      refine ⟨current, fun h member named => ?_⟩
      rcases List.mem_append.mp member with old | new
      · exact same h old named
      · -- the new client opened what the name is linked to
        obtain rfl := List.mem_singleton.mp new
        obtain rfl : other = name := named
        exact Option.some.inj (linked.symm.trans current)
  | server other space handles _ =>
    rw [handles] at latest
    rw [space, ShmSpace.linked_create]
    rcases latest.append with ⟨rfl, rfl⟩ | ⟨rest, rfl, before, notServer⟩
    · obtain rfl : other = name := latest.2.1
      exact ⟨if_pos rfl, fun h member => nomatch member⟩
    · -- a server of another name leaves the object of this one alone
      have different : other ≠ name := fun same => absurd (notServer same) Bool.noConfusion
      obtain ⟨current, same⟩ := connected server rest before
      refine ⟨?_, fun h member named => ?_⟩
      · rw [if_neg fun shared => different (apart shared.symm)]
        exact current
      · rcases List.mem_append.mp member with old | new
        · exact same h old named
        · obtain rfl := List.mem_singleton.mp new
          exact absurd named different

/-- Every client of a service that was constructed after the latest construction of its server
refers to the object of that server. -/
theorem clients_of_latest_server {name : CString} {s : Services}
    (reach : serviceHistories.ReachableWhen (Unshadowed name) s) : Connected name s := by
  have both : Connected name s ∧ s.table.mutex = .unlocked := by
    refine reach.invariant (fun s => Connected name s ∧ s.table.mutex = .unlocked) ?_ ?_
    · rintro s ⟨table, handles, _⟩
      refine ⟨?_, by rw [table]; rfl⟩
      rintro server later ⟨⟨before, split⟩, _⟩
      rw [handles] at split
      simp at split
    · rintro s e t ⟨connected, free⟩ apart taken
      obtain ⟨change, free⟩ := nextService_change free taken
      exact ⟨connected.change apart change, free⟩
  exact both.1

theorem clients_of_latest_server_restarted : ∃ s : Services,
    s.handles = [⟨plain, true, 0⟩, ⟨plain, false, 0⟩, ⟨plain, true, 1⟩, ⟨plain, false, 1⟩] ∧
      Connected plain s := by
  have init : serviceHistories.initial ⟨.init, .empty, [], []⟩ := ⟨rfl, rfl, rfl⟩
  obtain ⟨s, reach, handles⟩ := Machine.reachable_of_check serviceHistories (Unshadowed plain) init
    [.construct plain true, .construct plain false, .destroy 0, .construct plain true,
      .construct plain false]
    (fun s => decide (s.handles =
      [⟨plain, true, 0⟩, ⟨plain, false, 0⟩, ⟨plain, true, 1⟩, ⟨plain, false, 1⟩]))
    (by decide +kernel)
  exact ⟨s, of_decide_eq_true handles, clients_of_latest_server reach⟩

/-- The server exits and is started again: the client that is still there refers to the wiped
object. -/
theorem client_of_restarted_server :
    ¬ ∀ (name : CString) (s : Services), serviceHistories.Reachable s →
      ∀ server later, Latest name s.handles server later →
        ∀ i h, s.handles[i]? = some h → i ∉ s.destroyed → h.name = name → h.isServer = false →
          h.object = server.object := by
  intro claim
  have init : serviceHistories.initial ⟨.init, .empty, [], []⟩ := ⟨rfl, rfl, rfl⟩
  obtain ⟨s, reach, scene⟩ := Machine.reachable_of_check serviceHistories (fun _ _ => True) init
    [.construct plain true, .construct plain false, .destroy 0, .construct plain true]
    (fun s => decide (s.handles = [⟨plain, true, 0⟩, ⟨plain, false, 0⟩, ⟨plain, true, 1⟩] ∧
      s.destroyed = [0])) (by decide +kernel)
  obtain ⟨handles, destroyed⟩ := of_decide_eq_true scene
  have latest : Latest plain s.handles ⟨plain, true, 1⟩ [] :=
    ⟨⟨[⟨plain, true, 0⟩, ⟨plain, false, 0⟩], handles⟩, rfl, rfl, fun h member => nomatch member⟩
  have same := claim plain s reach _ [] latest 1 ⟨plain, false, 0⟩ (by rw [handles]; rfl)
    (by rw [destroyed]; decide) rfl rfl
  exact absurd same (by decide)

end ComIpc.SystemManager
