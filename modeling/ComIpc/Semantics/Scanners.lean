import ComIpc.Semantics.LittleEndian

/-! Scanners of a stream.

A scanner takes the front of a stream that belongs to its value and leaves the rest. What is
known of a scanner is which fronts it takes for which value, whatever comes behind them. Such
facts go together as the scanners do: one behind the other, and in counted loops.
-/

set_option autoImplicit false

namespace ComIpc.Semantics

abbrev Scanner (Symbol α : Type) := StateT (List Symbol) Option α

namespace Scanner

section
variable {Symbol α β : Type}

def next : Scanner Symbol Symbol
  | [] => none
  | symbol :: rest => some (symbol, rest)

def fail : Scanner Symbol α := fun _ => none

/-- `for (i = 0; i < count; ++i)` over a value that every round changes. -/
def times (body : β → Scanner Symbol β) : Nat → β → Scanner Symbol β
  | 0, value => pure value
  | count + 1, value => do
    let value ← body value
    times body count value

def strict (scanner : Scanner Symbol α) (stream : List Symbol) : Option α :=
  match scanner stream with
  | some (value, []) => some value
  | some (_, _ :: _) | none => none

def Takes (scanner : Scanner Symbol α) (front : List Symbol) (value : α) : Prop :=
  ∀ rest, scanner (front ++ rest) = some (value, rest)

theorem Takes.pure (value : α) : Takes (pure value : Scanner Symbol α) [] value :=
  fun _ => rfl

theorem Takes.next (symbol : Symbol) : Takes next [symbol] symbol := fun _ => rfl

theorem Takes.bind {first : Scanner Symbol α} {later : α → Scanner Symbol β}
    {front behind : List Symbol} {value : α} {result : β} (takes : Takes first front value)
    (goesOn : Takes (later value) behind result) :
    Takes (first >>= later) (front ++ behind) result := by
  intro rest
  rw [List.append_assoc]
  change (first (front ++ (behind ++ rest))).bind (fun taken => later taken.1 taken.2) = _
  rw [takes (behind ++ rest), Option.bind_some]
  exact goesOn rest

theorem Takes.cons {later : Symbol → Scanner Symbol β} {symbol : Symbol} {behind : List Symbol}
    {result : β} (goesOn : Takes (later symbol) behind result) :
    Takes (Scanner.next >>= later) (symbol :: behind) result :=
  (Takes.next symbol).bind goesOn

theorem Takes.map {scanner : Scanner Symbol α} {front : List Symbol} {value : α} (f : α → β)
    (takes : Takes scanner front value) : Takes (f <$> scanner) front (f value) := by
  have whole : Takes (scanner >>= fun value => Pure.pure (f value)) (front ++ []) (f value) :=
    takes.bind (.pure (f value))
  rwa [List.append_nil] at whole

theorem Takes.times {Item : Type} (body : β → Scanner Symbol β) (encode : Item → List Symbol)
    (add : β → Item → β) (items : List Item)
    (each : ∀ item ∈ items, ∀ value, Takes (body value) (encode item) (add value item))
    (value : β) :
    Takes (Scanner.times body items.length value) (items.flatMap encode)
      (items.foldl add value) := by
  induction items generalizing value with
  | nil => exact .pure value
  | cons item rest ih =>
    rw [List.flatMap_cons, List.foldl_cons]
    apply (each item List.mem_cons_self value).bind
    apply ih
    exact fun later member => each later (List.mem_cons_of_mem item member)

theorem strict_eq_some {scanner : Scanner Symbol α} {stream : List Symbol} {value : α} :
    scanner.strict stream = some value ↔ scanner stream = some (value, []) := by
  unfold strict
  constructor
  · intro read
    split at read
    · rename_i same
      rw [same, Option.some.inj read]
    · cases read
    · cases read
  · intro found
    rw [found]

theorem Takes.strict {scanner : Scanner Symbol α} {front : List Symbol} {value : α}
    (takes : Takes scanner front value) : scanner.strict front = some value := by
  have all := takes []
  rw [List.append_nil] at all
  exact strict_eq_some.mpr all

/-- What the first scanner finds in a stream of at most `bound` symbols the second finds too,
also when more comes behind. -/
def Extends (bound : Nat) (first second : Scanner Symbol α) : Prop :=
  ∀ stream value rest more, stream.length ≤ bound → first stream = some (value, rest) →
    second (stream ++ more) = some (value, rest ++ more) ∧ rest.length ≤ stream.length

variable {bound : Nat}

theorem Extends.pure (value : α) :
    Extends bound (pure value : Scanner Symbol α) (Pure.pure value) := by
  intro stream other rest more _ found
  cases found
  exact ⟨rfl, Nat.le_refl _⟩

theorem Extends.fail (second : Scanner Symbol α) : Extends bound fail second := by
  intro stream value rest more _ found
  cases found

theorem Extends.bind {first second : Scanner Symbol α} {later latter : α → Scanner Symbol β}
    (grows : Extends bound first second)
    (goesOn : ∀ value, Extends bound (later value) (latter value)) :
    Extends bound (first >>= later) (second >>= latter) := by
  intro stream result rest more short found
  change (first stream).bind (fun taken => later taken.1 taken.2) = _ at found
  obtain ⟨taken, here, found⟩ := Option.bind_eq_some_iff.mp found
  change (second (stream ++ more)).bind (fun taken => latter taken.1 taken.2) = _ ∧ _
  obtain ⟨same, left⟩ := grows _ _ _ more short here
  obtain ⟨all, fewer⟩ := goesOn _ _ _ _ more (Nat.le_trans left short) found
  rw [same, Option.bind_some]
  exact ⟨all, Nat.le_trans fewer left⟩

theorem Extends.cons {later latter : Symbol → Scanner Symbol β}
    (goesOn : ∀ symbol, Extends bound (later symbol) (latter symbol)) :
    Extends (bound + 1) (next >>= later) (next >>= latter) := by
  intro stream result rest more short found
  cases stream with
  | nil => cases found
  | cons symbol behind =>
    obtain ⟨all, fewer⟩ := goesOn symbol behind result rest more
      (Nat.le_of_succ_le_succ short) found
    exact ⟨all, Nat.le_succ_of_le fewer⟩

theorem Extends.next : Extends bound (next : Scanner Symbol Symbol) next := by
  intro stream value rest more _ found
  cases stream with
  | nil => cases found
  | cons symbol behind =>
    cases found
    exact ⟨rfl, Nat.le_succ _⟩

theorem Extends.map {first second : Scanner Symbol α} (f : α → β)
    (grows : Extends bound first second) : Extends bound (f <$> first) (f <$> second) := by
  have whole : Extends bound (first >>= fun value => Pure.pure (f value))
      (second >>= fun value => Pure.pure (f value)) := grows.bind fun value => .pure (f value)
  exact whole

theorem Extends.times {body other : β → Scanner Symbol β}
    (each : ∀ value, Extends bound (body value) (other value)) (count : Nat) (value : β) :
    Extends bound (times body count value) (times other count value) := by
  induction count generalizing value with
  | zero => exact .pure value
  | succ count ih => exact (each value).bind ih

theorem Extends.strict {first second : Scanner Symbol α} {stream : List Symbol} {value : α}
    (grows : Extends stream.length first second) (read : first.strict stream = some value) :
    second.strict stream = some value := by
  have all := (grows _ _ _ [] (Nat.le_refl _) (strict_eq_some.mp read)).1
  rw [List.append_nil] at all
  exact strict_eq_some.mpr all

/-- A scanner that has found its value at the end of a stream goes no further if more comes, so
it finds nothing in a front that has broken off. -/
theorem Extends.cut {first second : Scanner Symbol α} {front : List Symbol} {value : α} {cut : Nat}
    (grows : Extends cut first second) (takes : Takes second front value)
    (broken : cut < front.length) : first.strict (front.take cut) = none := by
  rw [Option.eq_none_iff_forall_ne_some]
  intro other read
  have short : (front.take cut).length ≤ cut := List.length_take_le cut front
  have whole := (grows _ _ _ (front.drop cut) short (strict_eq_some.mp read)).1
  have all := takes []
  rw [List.append_nil] at all
  rw [List.take_append_drop, all] at whole
  have behind : [] = front.drop cut := (Prod.mk.inj (Option.some.inj whole)).2
  exact absurd (List.drop_eq_nil_iff.mp behind.symm) (Nat.not_le.mpr broken)

def symbols (count : Nat) : Scanner Symbol (List Symbol) :=
  times (fun read => do
    let symbol ← next
    pure (read ++ [symbol])) count []

theorem takes_symbols (read : List Symbol) : Takes (symbols read.length) read read := by
  have loop := Takes.times (fun read : List Symbol => do
      let symbol ← next
      pure (read ++ [symbol])) (fun symbol => [symbol]) (fun read symbol => read ++ [symbol]) read
    (fun symbol _ value => .cons (.pure (value ++ [symbol]))) []
  rwa [List.foldl_append_eq_append, ← List.flatMap_def, List.nil_append,
    List.flatMap_singleton'] at loop

theorem extends_symbols (count : Nat) :
    Extends bound (symbols count : Scanner Symbol (List Symbol)) (symbols count) :=
  .times (fun _ => Extends.next.bind fun _ => .pure _) count []

end

/-! ### Numbers in network order -/

def bigEndian (width n : Nat) : List UInt8 := (toBytes width n).reverse

def number (width : Nat) : Scanner UInt8 Nat := do
  let bytes ← symbols width
  pure (ofBytes bytes.reverse)

@[simp] theorem length_bigEndian (width n : Nat) : (bigEndian width n).length = width := by
  rw [bigEndian, List.length_reverse, length_toBytes]

theorem takes_number (width n : Nat) :
    Takes (number width) (bigEndian width n) (n % 256 ^ width) := by
  have read := takes_symbols (bigEndian width n)
  rw [length_bigEndian] at read
  have whole := read.map fun bytes => ofBytes bytes.reverse
  rwa [bigEndian, List.reverse_reverse, ofBytes_toBytes] at whole

theorem extends_number {bound : Nat} (width : Nat) :
    Extends bound (number width) (number width) :=
  (extends_symbols width).bind fun _ => .pure _

end Scanner

end ComIpc.Semantics
