import Mathlib.Order.Monotone.Basic
import RuleLisp.Proofs.Eval.Relation

/-! # What evaluation upholds

Values come from values, and only functions point back into the session that made them. What they
may point to grows while a program runs. This module goes through the rules of evaluation once: if
the few ways in which a rule touches the store uphold what is known of values, and the expressions
inside an expression do, then one level of evaluation above them does too.
-/

namespace RuleLisp

/-! ## Well-formed values -/

structure Value.IsWellFormed (known : Function → Prop) (value : Value) : Prop where
  keys : value.HasDistinctKeys
  functions : value.AllFunctions known

namespace Value.IsWellFormed

variable {known more : Function → Prop} {value : Value} {items : List Value}
  {fields : List (String × Value)} {callee : Function}

theorem mono (weaker : known ≤ more) (wellFormed : value.IsWellFormed known) :
    value.IsWellFormed more :=
  ⟨wellFormed.keys, wellFormed.functions.mono weaker⟩

theorem null : IsWellFormed known .null :=
  ⟨.null, .null⟩

theorem bool (value : Bool) : IsWellFormed known (.bool value) :=
  ⟨.bool value, .bool value⟩

theorem number (value : Float) : IsWellFormed known (.number value) :=
  ⟨.number value, .number value⟩

theorem string (text : String) : IsWellFormed known (.string text) :=
  ⟨.string text, .string text⟩

theorem list (all : ∀ item ∈ items, item.IsWellFormed known) : IsWellFormed known (.list items) :=
  ⟨.list fun item member => (all item member).keys,
    .list fun item member => (all item member).functions⟩

theorem object (distinct : (Table.keys fields).Nodup)
    (all : ∀ field ∈ fields, field.2.IsWellFormed known) : IsWellFormed known (.object fields) :=
  ⟨.object distinct fun field member => (all field member).keys,
    .object fun field member => (all field member).functions⟩

theorem function (holds : known callee) : IsWellFormed known (.function callee) :=
  ⟨.function callee, .function holds⟩

theorem item (wellFormed : IsWellFormed known (.list items)) :
    ∀ item ∈ items, item.IsWellFormed known := by
  rcases wellFormed with ⟨_ | _ | _ | _ | ⟨keys⟩, functions⟩
  exact fun item member => ⟨keys item member, functions.item item member⟩

theorem distinct (wellFormed : IsWellFormed known (.object fields)) :
    (Table.keys fields).Nodup := by
  cases wellFormed.keys with
  | object distinct => exact distinct

theorem field (wellFormed : IsWellFormed known (.object fields)) :
    ∀ field ∈ fields, field.2.IsWellFormed known := by
  rcases wellFormed with ⟨_ | _ | _ | _ | _ | ⟨_, keys⟩, functions⟩
  exact fun field member => ⟨keys field member, functions.field field member⟩

theorem of_function (wellFormed : IsWellFormed known (.function callee)) : known callee := by
  cases wellFormed.functions with
  | function holds => exact holds

theorem empty : IsWellFormed known (.object []) :=
  object List.nodup_nil fun _ member => nomatch member

theorem insert (wellFormed : IsWellFormed known (.object fields)) (key : String)
    (valueWellFormed : value.IsWellFormed known) :
    IsWellFormed known (.object (Table.insert key value fields)) := by
  apply object (Table.nodup_keys_insert key value wellFormed.distinct)
  exact Table.forall_mem_insert wellFormed.field key valueWellFormed

end Value.IsWellFormed

abbrev Value.WellFormedIn {World : Type} (known : World → Function → Prop) (world : World)
    (value : Value) : Prop :=
  value.IsWellFormed (known world)

/-! ## Properties of values -/

/-- A property that values have if the values in them do. -/
structure ValueProperty where
  Holds : Value → Prop
  null : Holds .null
  bool : ∀ value, Holds (.bool value)
  number : ∀ value, Holds (.number value)
  string : ∀ text, Holds (.string text)
  list : ∀ {items}, (∀ item ∈ items, Holds item) → Holds (.list items)
  item : ∀ {items}, Holds (.list items) → ∀ item ∈ items, Holds item
  empty : Holds (.object [])
  insert : ∀ {fields value}, Holds (.object fields) → ∀ key, Holds value →
    Holds (.object (Table.insert key value fields))
  field : ∀ {fields}, Holds (.object fields) → ∀ field ∈ fields, Holds field.2

namespace ValueProperty

instance : Preorder ValueProperty :=
  .lift Holds

def wellFormed (known : Function → Prop) : ValueProperty where
  Holds := Value.IsWellFormed known
  null := .null
  bool := .bool
  number := .number
  string := .string
  list := .list
  item := .item
  empty := .empty
  insert := .insert
  field := .field

abbrev In {World : Type} (known : World → ValueProperty) (world : World) (value : Value) : Prop :=
  (known world).Holds value

variable (property : ValueProperty) {value : Value}

theorem field? (holds : property.Holds value) {key : String} {field : Value}
    (found : value.field? key = some field) : property.Holds field := by
  cases value with
  | object fields => exact property.field holds _ (Table.mem_of_get? found)
  | null | bool | number | string | list | function => cases found

theorem spliced (holds : property.Holds value) :
    ∀ item ∈ Builtin.spliced value, property.Holds item := by
  cases value with
  | list items => exact property.item holds
  | null | bool | number | string | object | function => exact List.forall_mem_singleton.mpr holds

theorem getD {found : Option Value} (all : ∀ value ∈ found, property.Holds value) :
    property.Holds (found.getD .null) := by
  cases found with
  | none => exact property.null
  | some value => exact all value rfl

end ValueProperty

/-! ## Properties of runs -/

/-- A property of computations that sequencing respects. The world grows as a computation runs, and
what is said of its result is said in the world at its end. -/
structure RunProperty (World : Type) [Preorder World] (m : Type → Type) [Monad m]
    [LawfulMonad m] [MonadExceptOf RunError m] where
  Holds : {α : Type} → World → (World → α → Prop) → m α → Prop
  pure : ∀ {α : Type} {world : World} {results : World → α → Prop} {result : α},
    results world result → Holds world results (pure result)
  throw : ∀ {α : Type} {world : World} {results : World → α → Prop} {error : RunError},
    error.isOverflow = false → Holds world results (throw error : m α)
  bind : ∀ {α β : Type} {world : World} {results : World → α → Prop} {lasts : World → β → Prop}
    {first : m α} {next : α → m β}, Holds world results first →
    (∀ later, world ≤ later → ∀ result, results later result → Holds later lasts (next result)) →
    Holds world lasts (first >>= next)

namespace RunProperty

variable {World : Type} [Preorder World] {m : Type → Type} [Monad m] [LawfulMonad m]
  [MonadExceptOf RunError m] (property : RunProperty World m) {α β : Type} {world : World}

theorem ofExcept {results : World → α → Prop} {outcome : Except RunError α}
    (fine : ∀ result, outcome = .ok result → results world result)
    (calm : ∀ error, outcome = .error error → error.isOverflow = false) :
    property.Holds world results (Run.ofExcept outcome) := by
  cases outcome with
  | ok result => exact property.pure (fine result rfl)
  | error error => exact property.throw (calm error rfl)

theorem mapM {results : World → β → Prop} (monotone : Monotone results) {items : List α}
    {run : α → m β}
    (each : ∀ item ∈ items, ∀ later, world ≤ later → property.Holds later results (run item)) :
    property.Holds world (fun world found => ∀ result ∈ found, results world result)
      (items.mapM run) := by
  induction items generalizing world with
  | nil => exact property.pure fun _ member => nomatch member
  | cons item rest induction =>
      rw [List.forall_mem_cons] at each
      rw [List.mapM_cons]
      apply property.bind (each.1 world le_rfl)
      intro middle le result first
      apply property.bind
      · exact induction fun item member later lt => each.2 item member later (le.trans lt)
      intro later lt found others
      apply property.pure
      exact List.forall_mem_cons.mpr ⟨monotone lt result first, others⟩

theorem foldlM {totals : World → β → Prop} {items : List α} {run : β → α → m β}
    (each : ∀ item ∈ items, ∀ later, world ≤ later → ∀ total, totals later total →
      property.Holds later totals (run total item))
    {start : β} (starts : totals world start) :
    property.Holds world totals (items.foldlM run start) := by
  induction items generalizing world start with
  | nil => exact property.pure starts
  | cons item rest induction =>
      rw [List.forall_mem_cons] at each
      rw [List.foldlM_cons]
      apply property.bind (each.1 world le_rfl start starts)
      intro middle le total holds
      exact induction (fun item member later lt => each.2 item member later (le.trans lt)) holds

end RunProperty

/-! ## One level of evaluation -/

/-- The expressions that stand directly inside an expression and are evaluated with it. -/
def Expr.parts : Expr → List Expr
  | .atom _ => []
  | .list items => items
  | .object spread properties => spread.toList ++ properties.map Prod.snd
  | .function _ _ _ => []

/-- What a rule of evaluation may do in an environment has a property, from a world on. -/
structure Upholds {World : Type} [Preorder World] {m : Type → Type} [Monad m] [LawfulMonad m]
    [MonadStateOf Store m] [MonadExceptOf RunError m] (property : RunProperty World m)
    (known : World → ValueProperty) (admits : Expr → Prop) (eval : EvaluatorIn m)
    (env : Environment) (world : World) : Prop where
  monotone : Monotone known
  get : ∀ {later}, world ≤ later → property.Holds later (fun world store => ∀ name value,
    store.lookup? env name = some value → (known world).Holds value) get
  define : ∀ {later name value}, world ≤ later → (known later).Holds value →
    property.Holds later (fun _ _ => True) (modify (·.define env name value))
  print : ∀ {later line}, world ≤ later →
    property.Holds later (fun _ _ => True) (modify (·.print line))
  call : ∀ {later callee args}, world ≤ later → (known later).Holds (.function callee) →
    (∀ arg ∈ args, (known later).Holds arg) →
    property.Holds later (ValueProperty.In known) (Eval.call eval callee args)
  eval : ∀ {later expr}, world ≤ later → admits expr →
    property.Holds later (ValueProperty.In known) (eval expr env)

structure Operand.IsWellFormed (known : ValueProperty) (admits : Expr → Prop)
    (operand : Operand) : Prop where
  expr : admits operand.expr
  value : ∀ value ∈ operand.known, known.Holds value

theorem Operand.IsWellFormed.mono {known more : ValueProperty} {admits : Expr → Prop}
    {operand : Operand} (weaker : known ≤ more) (wellFormed : operand.IsWellFormed known admits) :
    operand.IsWellFormed more admits :=
  ⟨wellFormed.expr, fun value present => weaker value (wellFormed.value value present)⟩

namespace Upholds

variable {World : Type} [Preorder World] {m : Type → Type} [Monad m] [LawfulMonad m]
  [MonadStateOf Store m] [MonadExceptOf RunError m] {property : RunProperty World m}
  {known : World → ValueProperty} {admits : Expr → Prop} {eval : EvaluatorIn m}
  {env : Environment} {world later : World}
  (upholds : Upholds property known admits eval env world)

include upholds

theorem mono (le : world ≤ later) : Upholds property known admits eval env later where
  monotone := upholds.monotone
  get lt := upholds.get (le.trans lt)
  define lt := upholds.define (le.trans lt)
  print lt := upholds.print (le.trans lt)
  call lt := upholds.call (le.trans lt)
  eval lt := upholds.eval (le.trans lt)

theorem monotone_in : Monotone (ValueProperty.In known) :=
  upholds.monotone

theorem operands_mono (le : world ≤ later) {operands : List Operand}
    (wellFormed : ∀ operand ∈ operands, operand.IsWellFormed (known world) admits) :
    ∀ operand ∈ operands, operand.IsWellFormed (known later) admits :=
  fun operand member => (wellFormed operand member).mono (upholds.monotone le)

/-! ### Operands -/

section

variable {operand : Operand} {operands : List Operand}

theorem value (wellFormed : operand.IsWellFormed (known world) admits) :
    property.Holds world (ValueProperty.In known) (operand.value eval env) := by
  unfold Operand.value
  cases present : operand.known with
  | some value => exact property.pure (wellFormed.value value present)
  | none => exact upholds.eval le_rfl wellFormed.expr

theorem number (wellFormed : operand.IsWellFormed (known world) admits) :
    property.Holds world (fun _ _ => True) (operand.number eval env) := by
  apply property.bind (upholds.value wellFormed)
  intro later le value _
  exact property.ofExcept (fun _ _ => trivial) fun _ => Value.isOverflow_of_toNumber

variable (wellFormed : ∀ operand ∈ operands, operand.IsWellFormed (known world) admits)

include wellFormed

theorem values :
    property.Holds world (fun world found => ∀ value ∈ found, (known world).Holds value)
      (Operand.values eval env operands) := by
  apply property.mapM upholds.monotone_in
  intro operand member later le
  exact (upholds.mono le).value ((wellFormed operand member).mono (upholds.monotone le))

/-! ### Operations -/

theorem accumulate {combine : Float → Float → m Float}
    (combines : ∀ total number later,
      property.Holds later (fun _ _ => True) (combine total number)) (start : Float) :
    property.Holds world (ValueProperty.In known)
      (Builtin.accumulate eval env combine start operands) := by
  have totals : property.Holds world (fun _ _ => True)
      (operands.foldlM (fun total operand => do combine total (← operand.number eval env))
        start) := by
    apply property.foldlM _ trivial
    intro operand member later le total _
    apply property.bind
    · exact (upholds.mono le).number ((wellFormed operand member).mono (upholds.monotone le))
    · intro last _ number _
      exact combines total number last
  apply property.bind totals
  intro later _ total _
  exact property.pure ((known _).number total)

theorem all : property.Holds world (ValueProperty.In known) (Builtin.all eval env operands) := by
  induction operands generalizing world with
  | nil => exact property.pure ((known _).bool true)
  | cons operand rest induction =>
      rw [List.forall_mem_cons] at wellFormed
      apply property.bind (upholds.value wellFormed.1)
      intro later le value _
      split
      · exact induction (upholds.mono le) (upholds.operands_mono le wellFormed.2)
      · exact property.pure ((known _).bool false)

theorem any : property.Holds world (ValueProperty.In known) (Builtin.any eval env operands) := by
  induction operands generalizing world with
  | nil => exact property.pure ((known _).bool false)
  | cons operand rest induction =>
      rw [List.forall_mem_cons] at wellFormed
      apply property.bind (upholds.value wellFormed.1)
      intro later le value _
      split
      · exact property.pure ((known _).bool true)
      · exact induction (upholds.mono le) (upholds.operands_mono le wellFormed.2)

omit wellFormed

omit [MonadStateOf Store m] upholds in
theorem itemsOf (keyword : String) {value : Value} (wellFormed : (known world).Holds value) :
    property.Holds world (fun world found => ∀ item ∈ found, (known world).Holds item)
      (Builtin.itemsOf keyword value) := by
  cases value with
  | list items => exact property.pure ((known world).item wellFormed)
  | null | bool | number | string | object | function => exact property.throw rfl

omit [MonadStateOf Store m] upholds in
theorem lengthOf (value : Value) :
    property.Holds world (ValueProperty.In known) (Builtin.lengthOf value) := by
  cases value with
  | string | list => exact property.pure ((known _).number _)
  | null | bool | number | object | function => exact property.throw rfl

theorem twoNumbers {first second : Operand}
    (firstWellFormed : first.IsWellFormed (known world) admits)
    (secondWellFormed : second.IsWellFormed (known world) admits) {next : Float → Float → m Value}
    (nexts : ∀ left right later,
      property.Holds later (ValueProperty.In known) (next left right)) :
    property.Holds world (ValueProperty.In known)
      (do next (← first.number eval env) (← second.number eval env)) := by
  apply property.bind (upholds.number firstWellFormed)
  intro middle le left _
  apply property.bind
  · exact (upholds.mono le).number (secondWellFormed.mono (upholds.monotone le))
  · intro later _ right _
    exact nexts left right later

theorem twoValues {first second : Operand}
    (firstWellFormed : first.IsWellFormed (known world) admits)
    (secondWellFormed : second.IsWellFormed (known world) admits) (test : Value → Value → Bool) :
    property.Holds world (ValueProperty.In known)
      (do return .bool (test (← first.value eval env) (← second.value eval env))) := by
  apply property.bind (upholds.value firstWellFormed)
  intro middle le left _
  apply property.bind
  · exact (upholds.mono le).value (secondWellFormed.mono (upholds.monotone le))
  · intro later _ right _
    exact property.pure ((known _).bool _)

theorem partOfItems (keyword : String) (wellFormed : operand.IsWellFormed (known world) admits)
    {part : List Value → Value}
    (parts : ∀ later items, (∀ item ∈ items, (known later).Holds item) →
      (known later).Holds (part items)) :
    property.Holds world (ValueProperty.In known)
      (do return part (← Builtin.itemsOf keyword (← operand.value eval env))) := by
  apply property.bind (upholds.value wellFormed)
  intro middle _ value valueWellFormed
  apply property.bind (itemsOf keyword valueWellFormed)
  intro later _ items all
  exact property.pure (parts later items all)

theorem assignTo (target : Operand) {value : Operand}
    (wellFormed : value.IsWellFormed (known world) admits) :
    property.Holds world (ValueProperty.In known) (Builtin.assignTo eval env target value) := by
  unfold Builtin.assignTo
  split
  · exact property.throw rfl
  · apply property.bind (upholds.value wellFormed)
    intro middle le result resultWellFormed
    apply property.bind (upholds.define le resultWellFormed)
    intro later lt _ _
    exact property.pure (upholds.monotone_in lt result resultWellFormed)

theorem printLine {values : List Value}
    (all : ∀ value ∈ values, (known world).Holds value) :
    property.Holds world (ValueProperty.In known) (Builtin.printLine values) := by
  apply property.bind (upholds.print le_rfl)
  intro later le _ _
  apply property.pure
  apply (known later).getD
  intro value last
  exact upholds.monotone_in le value (all value (List.mem_of_getLast? last))

omit [MonadStateOf Store m] upholds in
theorem unlessZero (divisor result : Float) (world : World) :
    property.Holds world (fun _ _ => True)
      (if divisor == 0 then throw .divisionByZero else pure result : m Float) := by
  split
  · exact property.throw rfl
  · exact property.pure trivial

omit upholds in
theorem run_of_length_ne (keyword : String) {builtin : Builtin} {count : Nat}
    (counted : builtin.operandCount? = some count) (wrong : operands.length ≠ count) :
    property.Holds world (ValueProperty.In known)
      (Builtin.run eval env keyword builtin operands) := by
  rw [Builtin.run_of_length_ne eval env keyword counted wrong]
  exact property.throw rfl

omit upholds in
theorem run_one (keyword : String) {builtin : Builtin} (counted : builtin.operandCount? = some 1)
    (wellFormed : ∀ operand ∈ operands, operand.IsWellFormed (known world) admits)
    (one : ∀ operand, operand.IsWellFormed (known world) admits →
      property.Holds world (ValueProperty.In known)
        (Builtin.run eval env keyword builtin [operand])) :
    property.Holds world (ValueProperty.In known)
      (Builtin.run eval env keyword builtin operands) := by
  by_cases count : operands.length = 1
  · rcases List.length_eq_one_iff.mp count with ⟨operand, single⟩
    subst single
    exact one operand (List.forall_mem_singleton.mp wellFormed)
  · exact run_of_length_ne keyword counted count

omit upholds in
theorem run_two (keyword : String) {builtin : Builtin} (counted : builtin.operandCount? = some 2)
    (wellFormed : ∀ operand ∈ operands, operand.IsWellFormed (known world) admits)
    (two : ∀ first second, first.IsWellFormed (known world) admits →
      second.IsWellFormed (known world) admits → property.Holds world (ValueProperty.In known)
        (Builtin.run eval env keyword builtin [first, second])) :
    property.Holds world (ValueProperty.In known)
      (Builtin.run eval env keyword builtin operands) := by
  by_cases count : operands.length = 2
  · rcases List.length_eq_two.mp count with ⟨first, second, pair⟩
    subst pair
    rw [List.forall_mem_cons, List.forall_mem_singleton] at wellFormed
    exact two first second wellFormed.1 wellFormed.2
  · exact run_of_length_ne keyword counted count

/-- Running an operation. -/
theorem run (keyword : String) (builtin : Builtin)
    (wellFormed : ∀ operand ∈ operands, operand.IsWellFormed (known world) admits) :
    property.Holds world (ValueProperty.In known)
      (Builtin.run eval env keyword builtin operands) := by
  cases builtin with
  | add => exact upholds.accumulate wellFormed (fun _ _ _ => property.pure trivial) 0
  | multiply => exact upholds.accumulate wellFormed (fun _ _ _ => property.pure trivial) 1
  | and => exact upholds.all wellFormed
  | or => exact upholds.any wellFormed
  | subtract =>
      rcases operands with _ | ⟨first, _ | ⟨second, rest⟩⟩
      · exact property.throw rfl
      · apply property.bind (upholds.number (List.forall_mem_singleton.mp wellFormed))
        intro later _ number _
        exact property.pure ((known _).number _)
      · rw [List.forall_mem_cons] at wellFormed
        apply property.bind (upholds.number wellFormed.1)
        intro later le number _
        exact (upholds.mono le).accumulate (upholds.operands_mono le wellFormed.2)
          (fun _ _ _ => property.pure trivial) number
  | divide =>
      rcases operands with _ | ⟨first, rest⟩
      · exact property.throw rfl
      · rw [List.forall_mem_cons] at wellFormed
        apply property.bind (upholds.number wellFormed.1)
        intro later le number _
        exact (upholds.mono le).accumulate (upholds.operands_mono le wellFormed.2)
          (fun _ divisor => unlessZero divisor _) number
  | remainder =>
      apply run_two keyword rfl wellFormed
      intro first second firstWellFormed secondWellFormed
      apply upholds.twoNumbers firstWellFormed secondWellFormed
      intro left right later
      apply property.bind (unlessZero right _ later)
      intro last _ result _
      exact property.pure ((known _).number result)
  | compare comparison =>
      apply run_two keyword rfl wellFormed
      intro first second firstWellFormed secondWellFormed
      apply upholds.twoNumbers firstWellFormed secondWellFormed
      intro left right later
      exact property.pure ((known _).bool _)
  | equal =>
      apply run_two keyword rfl wellFormed
      intro first second firstWellFormed secondWellFormed
      exact upholds.twoValues firstWellFormed secondWellFormed fun left right => left == right
  | unequal =>
      apply run_two keyword rfl wellFormed
      intro first second firstWellFormed secondWellFormed
      exact upholds.twoValues firstWellFormed secondWellFormed fun left right => left != right
  | not =>
      apply run_one keyword rfl wellFormed
      intro operand operandWellFormed
      apply property.bind (upholds.value operandWellFormed)
      intro later _ value _
      exact property.pure ((known _).bool _)
  | choose =>
      by_cases count : operands.length = 3
      · rcases List.length_eq_three.mp count with ⟨first, second, third, triple⟩
        subst triple
        rw [List.forall_mem_cons, List.forall_mem_cons, List.forall_mem_singleton] at wellFormed
        apply property.bind (upholds.value wellFormed.1)
        intro later le value _
        split
        · exact (upholds.mono le).value (wellFormed.2.1.mono (upholds.monotone le))
        · exact (upholds.mono le).value (wellFormed.2.2.mono (upholds.monotone le))
      · exact run_of_length_ne keyword rfl count
  | list =>
      apply property.bind (upholds.values wellFormed)
      intro later _ values all
      exact property.pure ((known _).list all)
  | firstItem =>
      apply run_one keyword rfl wellFormed
      intro operand operandWellFormed
      apply upholds.partOfItems keyword operandWellFormed
      intro later items all
      apply (known later).getD
      intro item first
      exact all item (List.mem_of_head? first)
  | otherItems =>
      apply run_one keyword rfl wellFormed
      intro operand operandWellFormed
      apply upholds.partOfItems keyword operandWellFormed
      intro later items all
      exact (known later).list fun item member => all item (List.mem_of_mem_tail member)
  | concat =>
      apply property.bind (upholds.values wellFormed)
      intro later _ values all
      apply property.pure
      apply (known later).list
      intro item member
      rcases List.mem_flatMap.mp member with ⟨value, among, spliced⟩
      exact (known later).spliced (all value among) item spliced
  | length =>
      apply run_one keyword rfl wellFormed
      intro operand operandWellFormed
      apply property.bind (upholds.value operandWellFormed)
      intro later _ value _
      exact lengthOf value
  | assign =>
      apply run_two keyword rfl wellFormed
      intro target value _ valueWellFormed
      exact upholds.assignTo target valueWellFormed
  | print =>
      apply property.bind (upholds.values wellFormed)
      intro later le values all
      exact (upholds.mono le).printLine all

end

/-! ### Calls -/

theorem lookup (name : String) :
    property.Holds world (fun world found => ∀ value ∈ found, (known world).Holds value)
      (Run.lookup? env name) := by
  apply property.bind (upholds.get le_rfl)
  intro later _ store all
  exact property.pure fun value found => all name value found

theorem callWith {callee : Function} (holds : (known world).Holds (.function callee))
    {args : List Expr} (admitted : ∀ arg ∈ args, admits arg) :
    property.Holds world (ValueProperty.In known) (Eval.callWith eval env callee args) := by
  apply property.bind
  · apply property.mapM upholds.monotone_in
    intro arg member later le
    exact upholds.eval le (admitted arg member)
  · intro later le values all
    exact upholds.call le (upholds.monotone le _ holds) all

theorem callBuiltin (name : String) {operands : List Operand}
    (wellFormed : ∀ operand ∈ operands, operand.IsWellFormed (known world) admits) :
    property.Holds world (ValueProperty.In known) (Eval.callBuiltin eval env name operands) := by
  unfold Eval.callBuiltin
  split
  · exact upholds.run name _ wellFormed
  · exact property.throw rfl

theorem callNamed (name : String) {args : List Expr} (admitted : ∀ arg ∈ args, admits arg)
    {operands : List Operand}
    (wellFormed : ∀ operand ∈ operands, operand.IsWellFormed (known world) admits) :
    property.Holds world (ValueProperty.In known)
      (Eval.callNamed eval env name args operands) := by
  apply property.bind (upholds.lookup name)
  intro later le found all
  split
  · exact (upholds.mono le).callWith (all _ rfl) admitted
  · exact (upholds.mono le).callBuiltin name (upholds.operands_mono le wellFormed)

theorem fieldOrCall (name : String) {arg : Expr} (admitted : admits arg) :
    property.Holds world (ValueProperty.In known) (Eval.fieldOrCall eval env name arg) := by
  apply property.bind (upholds.eval le_rfl admitted)
  intro later le target targetWellFormed
  split
  · next field found => exact property.pure ((known later).field? targetWellFormed found)
  · have wellFormed : Operand.IsWellFormed (known later) admits ⟨arg, some target⟩ :=
      ⟨admitted, fun _ present => Option.mem_some_iff.mp present ▸ targetWellFormed⟩
    exact (upholds.mono le).callNamed name (List.forall_mem_singleton.mpr admitted)
      (List.forall_mem_singleton.mpr wellFormed)

/-! ### Expressions -/

theorem listNamed (name : String) {args : List Expr} (admitted : ∀ arg ∈ args, admits arg) :
    property.Holds world (ValueProperty.In known) (Eval.listNamed eval env name args) := by
  apply property.bind (upholds.get le_rfl)
  intro later le store _
  have called : property.Holds later (ValueProperty.In known)
      (Eval.callNamed eval env name args (args.map fun arg => ⟨arg, none⟩)) := by
    apply (upholds.mono le).callNamed name admitted
    intro operand member
    rcases List.mem_map.mp member with ⟨arg, among, same⟩
    subst same
    exact ⟨admitted arg among, fun _ present => nomatch present⟩
  dsimp only
  split
  · next arg =>
      split
      · exact (upholds.mono le).fieldOrCall name (admitted arg List.mem_cons_self)
      · exact called
  · exact called

theorem listComputed {head : Expr} (headAdmitted : admits head) {args : List Expr}
    (admitted : ∀ arg ∈ args, admits arg) :
    property.Holds world (ValueProperty.In known) (Eval.listComputed eval env head args) := by
  apply property.bind (upholds.eval le_rfl headAdmitted)
  intro later le value wellFormed
  cases value with
  | function callee => exact (upholds.mono le).callWith wellFormed admitted
  | null | bool | number | string | list | object => exact property.throw rfl

theorem list {items : List Expr} (admitted : ∀ item ∈ items, admits item) :
    property.Holds world (ValueProperty.In known) (Eval.list eval env items) := by
  cases items with
  | nil => exact property.pure (known _).null
  | cons head args =>
      rw [List.forall_mem_cons] at admitted
      cases text : head.text? with
      | none =>
          simp only [Eval.list, text]
          exact upholds.listComputed admitted.1 admitted.2
      | some name =>
          simp only [Eval.list, text]
          exact upholds.listNamed name admitted.2

theorem atom (word : Atom) :
    property.Holds world (ValueProperty.In known) (Eval.atom env word) := by
  cases word with
  | symbol name =>
      apply property.bind (upholds.lookup name)
      intro later _ found all
      split
      · exact property.pure (all _ rfl)
      · split
        · exact property.throw rfl
        · exact property.pure ((known _).string name)
  | null => exact property.pure (known _).null
  | bool value => exact property.pure ((known _).bool value)
  | number value => exact property.pure ((known _).number value)
  | string text => exact property.pure ((known _).string text)

theorem base {spread : Option Expr} (admitted : ∀ expr ∈ spread, admits expr) :
    property.Holds world (fun world fields => (known world).Holds (.object fields))
      (Eval.base eval env spread) := by
  cases spread with
  | none => exact property.pure (known _).empty
  | some expr =>
      apply property.bind (upholds.eval le_rfl (admitted expr rfl))
      intro later _ value wellFormed
      split
      · exact property.pure wellFormed
      · exact property.throw rfl

theorem object {spread : Option Expr} {properties : List (String × Expr)}
    (baseAdmitted : ∀ expr ∈ spread, admits expr)
    (admitted : ∀ property ∈ properties, admits property.2) :
    property.Holds world (ValueProperty.In known) (Eval.object eval env spread properties) := by
  apply property.bind (upholds.base baseAdmitted)
  intro middle le start startWellFormed
  have extended : property.Holds middle
      (fun world fields => (known world).Holds (.object fields))
      (properties.foldlM (fun fields entry => do
        return Table.insert entry.1 (← eval entry.2 env) fields) start) := by
    refine property.foldlM ?_ startWellFormed
    intro entry member later lt fields wellFormed
    apply property.bind (upholds.eval (le.trans lt) (admitted entry member))
    intro last after value valueWellFormed
    have kept := upholds.monotone_in after _ wellFormed
    exact property.pure ((known last).insert kept entry.1 valueWellFormed)
  apply property.bind extended
  intro later _ fields wellFormed
  exact property.pure wellFormed

/-- One level of evaluation. -/
theorem step {expr : Expr} (inner : ∀ part ∈ expr.parts, admits part)
    (defines : ∀ {name params body}, expr = .function name params body →
      property.Holds world (fun _ _ => True) (modify (·.defineClosure env name params body))) :
    property.Holds world (ValueProperty.In known) (Eval.step eval expr env) := by
  cases expr with
  | atom word => exact upholds.atom word
  | list items => exact upholds.list inner
  | object spread properties =>
      apply upholds.object
      · intro expr present
        exact inner expr (List.mem_append_left _ (Option.mem_toList.mpr present))
      · intro entry member
        exact inner entry.2 (List.mem_append_right _ (List.mem_map_of_mem member))
  | function name params body =>
      apply property.bind (defines rfl)
      intro later _ _ _
      exact property.pure (known _).null

end Upholds

end RuleLisp
