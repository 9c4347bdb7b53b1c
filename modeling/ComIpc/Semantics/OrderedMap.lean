import Mathlib.Data.List.Basic

/-! Maps that keep their keys in increasing order. -/

set_option autoImplicit false

namespace ComIpc.Semantics

structure OrderedMap (K V : Type) [LT K] where
  entries : List (K × V)
  sorted : entries.Pairwise fun a b => a.1 < b.1

namespace OrderedMap

variable {K V : Type} [LT K]

def empty : OrderedMap K V := ⟨[], .nil⟩

section
variable [DecidableLT K] [DecidableEq K]

def insertEntry (key : K) (value : V) : List (K × V) → List (K × V)
  | [] => [(key, value)]
  | (k, v) :: rest =>
    if key < k then (key, value) :: (k, v) :: rest
    else if key = k then (key, value) :: rest
    else (k, v) :: insertEntry key value rest

theorem mem_insertEntry {key : K} {value : V} {entries : List (K × V)} {e : K × V}
    (member : e ∈ insertEntry key value entries) : e = (key, value) ∨ e ∈ entries := by
  induction entries with
  | nil => exact .inl (List.mem_singleton.mp member)
  | cons head rest ih =>
    obtain ⟨k, v⟩ := head
    unfold insertEntry at member
    split at member
    · exact List.mem_cons.mp member
    · split at member
      · rcases List.mem_cons.mp member with new | old
        · exact .inl new
        · exact .inr (List.mem_cons_of_mem _ old)
      · rcases List.mem_cons.mp member with head | old
        · exact .inr (head ▸ List.mem_cons_self)
        · rcases ih old with new | old
          · exact .inl new
          · exact .inr (List.mem_cons_of_mem _ old)

variable [LE K] [Std.IsLinearOrder K] [Std.LawfulOrderLT K]

theorem insertEntry_sorted (key : K) (value : V) {entries : List (K × V)}
    (sorted : entries.Pairwise fun a b => a.1 < b.1) :
    (insertEntry key value entries).Pairwise fun a b => a.1 < b.1 := by
  induction entries with
  | nil => exact List.pairwise_singleton _ _
  | cons head rest ih =>
    obtain ⟨k, v⟩ := head
    obtain ⟨above, rest_⟩ := List.pairwise_cons.mp sorted
    unfold insertEntry
    split
    · rename_i below
      refine List.pairwise_cons.mpr ⟨?_, sorted⟩
      intro e member
      rcases List.mem_cons.mp member with rfl | later
      · exact below
      · exact Std.lt_trans below (above e later)
    · split
      · rename_i same
        exact List.pairwise_cons.mpr ⟨fun e member => same ▸ above e member, rest_⟩
      · rename_i notBelow different
        have after : k < key := Std.lt_of_le_of_ne (Std.not_lt.mp notBelow) (Ne.symm different)
        refine List.pairwise_cons.mpr ⟨?_, ih rest_⟩
        intro e member
        rcases mem_insertEntry member with rfl | old
        · exact after
        · exact above e old

theorem insertEntry_last {key : K} (value : V) {entries : List (K × V)}
    (above : ∀ e ∈ entries, e.1 < key) :
    insertEntry key value entries = entries ++ [(key, value)] := by
  induction entries with
  | nil => rfl
  | cons head rest ih =>
    obtain ⟨k, v⟩ := head
    have below : k < key := above (k, v) List.mem_cons_self
    have other : ¬ key = k := by
      rintro rfl
      exact Std.lt_irrefl below
    rw [insertEntry, if_neg (Std.not_lt.mpr (Std.le_of_lt below)), if_neg other,
      ih fun e member => above e (List.mem_cons_of_mem _ member), List.cons_append]

theorem foldl_insertEntry {entries items : List (K × V)}
    (sorted : (entries ++ items).Pairwise fun a b => a.1 < b.1) :
    items.foldl (fun entries e => insertEntry e.1 e.2 entries) entries = entries ++ items := by
  induction items generalizing entries with
  | nil => exact (List.append_nil entries).symm
  | cons e rest ih =>
    have above : ∀ other ∈ entries, other.1 < e.1 := fun other member =>
      (List.pairwise_append.mp sorted).2.2 other member e List.mem_cons_self
    rw [List.append_cons] at sorted
    rw [List.foldl_cons, insertEntry_last e.2 above, ih sorted, List.append_assoc,
      List.singleton_append]

/-- `map[key] = value`. -/
def insert (map : OrderedMap K V) (key : K) (value : V) : OrderedMap K V :=
  ⟨insertEntry key value map.entries, insertEntry_sorted key value map.sorted⟩

end

def find? [DecidableEq K] (map : OrderedMap K V) (key : K) : Option V :=
  (map.entries.find? fun e => e.1 = key).map Prod.snd

def erase [DecidableEq K] (map : OrderedMap K V) (key : K) : OrderedMap K V :=
  ⟨map.entries.filter fun e => e.1 ≠ key, map.sorted.filter _⟩

/-- The entry at `begin` and the map without it. -/
def first? (map : OrderedMap K V) : Option ((K × V) × OrderedMap K V) :=
  match shape : map.entries with
  | [] => none
  | e :: rest => some (e, ⟨rest, (List.pairwise_cons.mp (shape ▸ map.sorted)).2⟩)

theorem mem_insert [DecidableLT K] [DecidableEq K] [LE K] [Std.IsLinearOrder K]
    [Std.LawfulOrderLT K] {map : OrderedMap K V} {key : K} {value : V} {e : K × V}
    (member : e ∈ (map.insert key value).entries) : e = (key, value) ∨ e ∈ map.entries :=
  mem_insertEntry member

theorem insert_entries_of_empty [DecidableLT K] [DecidableEq K] [LE K] [Std.IsLinearOrder K]
    [Std.LawfulOrderLT K] {map : OrderedMap K V} (empty : map.entries = []) (key : K) (value : V) :
    (map.insert key value).entries = [(key, value)] := by
  simp only [insert, empty, insertEntry]

theorem mem_of_find? [DecidableEq K] {map : OrderedMap K V} {key : K} {value : V}
    (found : map.find? key = some value) : (key, value) ∈ map.entries := by
  obtain ⟨⟨k, v⟩, first, rfl⟩ := Option.map_eq_some_iff.mp found
  have same : k = key := by simpa using List.find?_some first
  exact same ▸ List.mem_of_find?_eq_some first

theorem mem_of_mem_erase [DecidableEq K] {map : OrderedMap K V} {key : K} {e : K × V}
    (member : e ∈ (map.erase key).entries) : e ∈ map.entries :=
  List.mem_of_mem_filter member

theorem find?_insert_self [DecidableLT K] [DecidableEq K] [LE K] [Std.IsLinearOrder K]
    [Std.LawfulOrderLT K] (map : OrderedMap K V) (key : K) (value : V) :
    (map.insert key value).find? key = some value := by
  have first : ∀ entries : List (K × V),
      (insertEntry key value entries).find? (fun e => e.1 = key) = some (key, value) := by
    intro entries
    induction entries with
    | nil => simp [insertEntry]
    | cons head rest ih =>
      obtain ⟨k, v⟩ := head
      unfold insertEntry
      split
      · simp
      · split
        · simp
        · rename_i different
          rw [List.find?_cons_of_neg (by simpa using Ne.symm different), ih]
  rw [find?, insert, first, Option.map_some]

theorem find?_erase_of_ne [DecidableEq K] {map : OrderedMap K V} {key other : K}
    (differs : other ≠ key) : (map.erase key).find? other = map.find? other := by
  rw [find?, find?, erase, List.find?_filter]
  congr 2
  funext e
  by_cases here : e.1 = other
  · simp [here, differs]
  · simp [here]

theorem find?_erase_self [DecidableEq K] (map : OrderedMap K V) (key : K) :
    (map.erase key).find? key = none := by
  rw [find?, erase, Option.map_eq_none_iff, List.find?_eq_none]
  intro e member
  have kept := List.of_mem_filter member
  simpa using kept

theorem find?_insert_of_ne [DecidableLT K] [DecidableEq K] [LE K] [Std.IsLinearOrder K]
    [Std.LawfulOrderLT K] {map : OrderedMap K V} {key other : K} (value : V)
    (differs : other ≠ key) : (map.insert key value).find? other = map.find? other := by
  have skip : ∀ (v : V) (rest : List (K × V)), ((key, v) :: rest).find? (fun e => e.1 = other) =
      rest.find? fun e => e.1 = other :=
    fun v rest => List.find?_cons_of_neg (by simpa using Ne.symm differs)
  have first : ∀ entries : List (K × V),
      (insertEntry key value entries).find? (fun e => e.1 = other) =
        entries.find? fun e => e.1 = other := by
    intro entries
    induction entries with
    | nil => exact skip value []
    | cons head rest ih =>
      obtain ⟨k, v⟩ := head
      unfold insertEntry
      split
      · exact skip value _
      · split
        · rename_i same
          subst same
          rw [skip, skip]
        · by_cases here : k = other
          · rw [List.find?_cons_of_pos (by simpa using here),
              List.find?_cons_of_pos (by simpa using here)]
          · rw [List.find?_cons_of_neg (by simpa using here),
              List.find?_cons_of_neg (by simpa using here), ih]
  rw [find?, insert, first, find?]

theorem first?_entries {map rest : OrderedMap K V} {e : K × V}
    (first : map.first? = some (e, rest)) : map.entries = e :: rest.entries := by
  unfold first? at first
  split at first
  · contradiction
  · rename_i head tail shape
    obtain ⟨rfl, rfl⟩ := Prod.mk.inj (Option.some.inj first)
    exact shape

theorem first?_none {map : OrderedMap K V} (none : map.first? = none) : map.entries = [] := by
  unfold first? at none
  split at none
  · assumption
  · contradiction

theorem first?_of_singleton {map : OrderedMap K V} {e : K × V} (only : map.entries = [e]) :
    ∃ rest, map.first? = some (e, rest) := by
  cases first : map.first? with
  | none => simp [first?_none first] at only
  | some taken =>
    have entries := first?_entries first
    rw [only] at entries
    exact ⟨taken.2, by rw [(List.cons.inj entries).1]⟩

end OrderedMap

end ComIpc.Semantics
