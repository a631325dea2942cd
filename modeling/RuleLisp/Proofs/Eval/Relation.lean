import RuleLisp.Eval.Step
import RuleLisp.Proofs.Expr
import RuleLisp.Proofs.Value

/-! # Runs side by side

Many facts about evaluation compare two runs: of two stores, of two limits, or of a store with what
it has become. This module goes through the rules of evaluation once. If two evaluators are
related on the expressions inside an expression, and if the few ways in which a rule touches the
store are related, then one level of evaluation above them is related too.
-/

namespace RuleLisp

inductive OutcomeRel {α β : Type} (results : α → β → Prop) :
    Except RunError α → Except RunError β → Prop
  | ok {result : α} {other : β} (related : results result other) :
      OutcomeRel results (.ok result) (.ok other)
  | error (error : RunError) : OutcomeRel results (.error error) (.error error)

theorem OutcomeRel.refl {α : Type} {results : α → α → Prop}
    (reflexive : ∀ result, results result result) (outcome : Except RunError α) :
    OutcomeRel results outcome outcome := by
  cases outcome with
  | ok result => exact .ok (reflexive result)
  | error error => exact .error error

theorem OutcomeRel.mono {α β : Type} {results others : α → β → Prop}
    {outcome : Except RunError α} {other : Except RunError β}
    (outcomes : OutcomeRel results outcome other)
    (weaker : ∀ result twin, results result twin → others result twin) :
    OutcomeRel others outcome other := by
  cases outcomes with
  | ok related => exact .ok (weaker _ _ related)
  | error error => exact .error error

/-- Whether evaluation stopped because it nests past the limit. The rules of evaluation leave this
error to the limit and raise only the others. -/
def RunError.isOverflow : RunError → Bool
  | stackOverflow _ => true
  | _ => false

theorem Value.isOverflow_of_toNumber {value : Value} {error : RunError}
    (failed : value.toNumber = .error error) : error.isOverflow = false := by
  cases value with
  | number => cases failed
  | string text =>
      simp only [toNumber] at failed
      split at failed <;> cases failed
      rfl
  | null | bool | list | object | function =>
      cases failed
      rfl

instance Run.lawfulMonad : LawfulMonad Run :=
  inferInstance

/-- A relation between computations of two kinds that sequencing respects. -/
structure RunRelation (m n : Type → Type) [Monad m] [Monad n] [LawfulMonad m] [LawfulMonad n]
    [MonadExceptOf RunError m] [MonadExceptOf RunError n] where
  Relates : {α β : Type} → (α → β → Prop) → m α → n β → Prop
  pure : ∀ {α β : Type} {results : α → β → Prop} {result : α} {other : β},
    results result other → Relates results (pure result) (pure other)
  throw : ∀ {α β : Type} {results : α → β → Prop} {error : RunError}, error.isOverflow = false →
    Relates results (throw error : m α) (throw error : n β)
  bind : ∀ {α β γ δ : Type} {results : α → β → Prop} {lasts : γ → δ → Prop} {first : m α}
    {other : n β} {next : α → m γ} {otherNext : β → n δ}, Relates results first other →
    (∀ result twin, results result twin → Relates lasts (next result) (otherNext twin)) →
    Relates lasts (first >>= next) (other >>= otherNext)

namespace RunRelation

variable {m n : Type → Type} [Monad m] [Monad n] [LawfulMonad m] [LawfulMonad n]
  [MonadExceptOf RunError m] [MonadExceptOf RunError n] (relation : RunRelation m n)
  {α β γ δ : Type}

theorem ofExcept {results : α → β → Prop} {outcome : Except RunError α}
    {other : Except RunError β} (outcomes : OutcomeRel results outcome other)
    (calm : ∀ error, outcome = .error error → error.isOverflow = false) :
    relation.Relates results (Run.ofExcept outcome) (Run.ofExcept other) := by
  cases outcomes with
  | ok related => exact relation.pure related
  | error error => exact relation.throw (calm error rfl)

theorem mapM {results : γ → δ → Prop} {related : α → β → Prop} {items : List α} {others : List β}
    {run : α → m γ} {otherRun : β → n δ} (alike : List.Forall₂ related items others)
    (each : ∀ item other, related item other →
      relation.Relates results (run item) (otherRun other)) :
    relation.Relates (List.Forall₂ results) (items.mapM run) (others.mapM otherRun) := by
  induction alike with
  | nil => exact relation.pure .nil
  | cons first _ induction =>
      rw [List.mapM_cons, List.mapM_cons]
      apply relation.bind (each _ _ first)
      intro result twin results
      apply relation.bind induction
      intro rest twins restAlike
      exact relation.pure (.cons results restAlike)

theorem foldlM {totals : γ → δ → Prop} {related : α → β → Prop} {items : List α} {others : List β}
    {run : γ → α → m γ} {otherRun : δ → β → n δ} (alike : List.Forall₂ related items others)
    (each : ∀ item other total twin, related item other → totals total twin →
      relation.Relates totals (run total item) (otherRun twin other))
    {start : γ} {otherStart : δ} (starts : totals start otherStart) :
    relation.Relates totals (items.foldlM run start) (others.foldlM otherRun otherStart) := by
  induction alike generalizing start otherStart with
  | nil => exact relation.pure starts
  | cons first _ induction =>
      rw [List.foldlM_cons, List.foldlM_cons]
      apply relation.bind (each _ _ _ _ first starts)
      intro total twin totalsAlike
      exact induction totalsAlike

end RunRelation

/-! ## Relations between stores -/

namespace Run

variable {α β : Type}

def runOn (run : Run α) (store : Store) : Except RunError α × Store :=
  (ExceptT.run run).run store

@[simp] theorem runOn_pure (result : α) (store : Store) :
    runOn (pure result) store = (.ok result, store) :=
  rfl

@[simp] theorem runOn_throw (error : RunError) (store : Store) :
    runOn (throw error : Run α) store = (.error error, store) :=
  rfl

@[simp] theorem runOn_get (store : Store) : runOn get store = (.ok store, store) :=
  rfl

@[simp] theorem runOn_modify (change : Store → Store) (store : Store) :
    runOn (modify change) store = (.ok ⟨⟩, change store) :=
  rfl

theorem runOn_bind (first : Run α) (next : α → Run β) (store : Store) :
    (first >>= next).runOn store =
      match first.runOn store with
      | (.ok result, after) => (next result).runOn after
      | (.error error, after) => (.error error, after) := by
  rw [runOn, ExceptT.run_bind, StateT.run_bind]
  rcases same : first.runOn store with ⟨outcome | outcome, after⟩
  · rw [runOn] at same
    rw [same]
    rfl
  · rw [runOn] at same
    rw [same]
    rfl

theorem runOn_bind_ok {first : Run α} {store after : Store} {result : α}
    (ran : first.runOn store = (.ok result, after)) (next : α → Run β) :
    (first >>= next).runOn store = (next result).runOn after := by
  rw [runOn_bind, ran]

theorem runOn_bind_error {first : Run α} {store after : Store} {error : RunError}
    (ran : first.runOn store = (.error error, after)) (next : α → Run β) :
    (first >>= next).runOn store = (.error error, after) := by
  rw [runOn_bind, ran]

end Run

def RunRelation.ofStores (stores : Store → Store → Prop) : RunRelation Run Run where
  Relates results run other := ∀ store twin, stores store twin →
    OutcomeRel results (run.runOn store).1 (other.runOn twin).1 ∧
      stores (run.runOn store).2 (other.runOn twin).2
  pure related store twin alike := ⟨.ok related, alike⟩
  throw _ store twin alike := ⟨.error _, alike⟩
  bind := by
    intro α β γ δ results lasts first other next otherNext firsts nexts store twin alike
    have after := firsts store twin alike
    rw [Run.runOn_bind, Run.runOn_bind]
    revert after
    rcases first.runOn store with ⟨outcome, left⟩
    rcases other.runOn twin with ⟨otherOutcome, right⟩
    rintro ⟨outcomes, stores⟩
    cases outcomes with
    | ok related => exact nexts _ _ related left right stores
    | error error => exact ⟨.error error, stores⟩

theorem RunRelation.ofStores_get (stores : Store → Store → Prop) :
    (ofStores stores).Relates stores get get := by
  intro store twin alike
  exact ⟨.ok alike, alike⟩

theorem RunRelation.ofStores_modify {stores : Store → Store → Prop} {change other : Store → Store}
    (kept : ∀ store twin, stores store twin → stores (change store) (other twin)) :
    (ofStores stores).Relates (fun _ _ => True) (modify change) (modify other) := by
  intro store twin alike
  exact ⟨.ok trivial, kept store twin alike⟩

theorem RunRelation.ofStores_ofExcept {α β : Type} {stores : Store → Store → Prop}
    {results : α → β → Prop} {outcome : Except RunError α} {other : Except RunError β}
    (outcomes : OutcomeRel results outcome other) :
    (ofStores stores).Relates results (Run.ofExcept outcome) (Run.ofExcept other) := by
  intro store twin alike
  cases outcomes with
  | ok related => exact ⟨.ok related, alike⟩
  | error error => exact ⟨.error error, alike⟩

/-! ## Rows of values -/

namespace Value

variable {functions : FunctionPairing} {values others : List Value}

theorem Like.getD {first other : Option Value} (alike : Option.Rel (Like functions) first other) :
    Like functions (first.getD .null) (other.getD .null) := by
  cases alike with
  | some values => exact values
  | none => exact .null

theorem head?_like (alike : List.Forall₂ (Like functions) values others) :
    Option.Rel (Like functions) values.head? others.head? := by
  cases alike with
  | nil => exact .none
  | cons first _ => exact .some first

theorem tail_like (alike : List.Forall₂ (Like functions) values others) :
    List.Forall₂ (Like functions) values.tail others.tail := by
  cases alike with
  | nil => exact .nil
  | cons _ rest => exact rest

theorem getLast?_like (alike : List.Forall₂ (Like functions) values others) :
    Option.Rel (Like functions) values.getLast? others.getLast? := by
  induction alike with
  | nil => exact .none
  | cons first rest induction =>
      cases rest with
      | nil => exact .some first
      | cons second rest =>
          rw [List.getLast?_cons_cons, List.getLast?_cons_cons]
          exact induction

theorem flatMap_spliced_like (alike : List.Forall₂ (Like functions) values others) :
    List.Forall₂ (Like functions) (values.flatMap Builtin.spliced)
      (others.flatMap Builtin.spliced) := by
  induction alike with
  | nil => exact .nil
  | cons first rest induction =>
      rw [List.flatMap_cons, List.flatMap_cons]
      apply List.rel_append _ induction
      cases first with
      | list items => exact items
      | null => exact .cons .null .nil
      | bool value => exact .cons (.bool value) .nil
      | number value => exact .cons (.number value) .nil
      | string text => exact .cons (.string text) .nil
      | object fields => exact .cons (.object fields) .nil
      | function paired => exact .cons (.function paired) .nil

end Value

/-! ## Numbers of operands -/

def Arity.Admits (length : Nat) : Arity → Prop
  | exactly count => length = count
  | atLeast count => count ≤ length

namespace Builtin

def operandCount? (builtin : Builtin) : Option Nat :=
  match builtin.arity with
  | .exactly count => some count
  | .atLeast _ => none

variable {m : Type → Type} [Monad m] [MonadStateOf Store m] [MonadExceptOf RunError m]
  (eval : EvaluatorIn m) (env : Environment) (keyword : String) {builtin : Builtin}
  {operands : List Operand}

theorem run_of_not_admits (refused : ¬builtin.arity.Admits operands.length) :
    run eval env keyword builtin operands =
      throw (.arity keyword builtin.expected operands.length) := by
  rcases operands with _ | ⟨first, _ | ⟨second, _ | ⟨third, _ | ⟨fourth, rest⟩⟩⟩⟩ <;>
    cases builtin <;> first | rfl | exact absurd (by simp [arity, Arity.Admits]) refused

theorem run_of_length_ne {count : Nat} (counted : builtin.operandCount? = some count)
    (wrong : operands.length ≠ count) :
    run eval env keyword builtin operands =
      throw (.arity keyword builtin.expected operands.length) := by
  apply run_of_not_admits
  revert counted
  rw [operandCount?]
  cases builtin.arity with
  | exactly asked =>
      rintro ⟨⟩
      exact wrong
  | atLeast => exact nofun

/-- Only one keyword writes a variable. -/
theorem eq_set_of_ofKeyword? {keyword : String} (found : ofKeyword? keyword = some .assign) :
    keyword = "set" := by
  have member := Table.mem_of_get? found
  simpa [keywords] using member

end Builtin

theorem isSome_eq_of_rel {α β : Type} {related : α → β → Prop} {found : Option α}
    {other : Option β} (alike : Option.Rel related found other) :
    found.isSome = other.isSome := by
  cases alike <;> rfl

theorem Store.contains_eq_isSome (store : Store) (env : Environment) (name : String) :
    store.contains env name = (store.lookup? env name).isSome := by
  unfold Store.contains Store.lookup?
  induction env.scopes with
  | nil => rfl
  | cons number rest induction =>
      rw [List.any_cons, List.findSome?_cons, induction, Table.contains]
      cases Table.get? name (store.scope number) <;> rfl

/-! ## Comparing evaluators -/

structure Expr.Confined (reads writes : String → Prop) (expr : Expr) : Prop where
  reads : ∀ name ∈ expr.lookups, reads name
  writes : ∀ name ∈ expr.written, writes name

namespace Expr.Confined

variable {reads writes : String → Prop}

theorem anything (expr : Expr) : expr.Confined (fun _ => True) fun _ => True :=
  ⟨fun _ _ => trivial, fun _ _ => trivial⟩

theorem head {head : Expr} {args : List Expr}
    (confined : (Expr.list (head :: args)).Confined reads writes) {name : String}
    (text : head.text? = some name) : reads name := by
  apply confined.reads
  simp [lookups, called, text]

theorem item {items : List Expr} (confined : (Expr.list items).Confined reads writes)
    {item : Expr} (member : item ∈ items) : item.Confined reads writes := by
  refine ⟨?_, ?_⟩
  · intro name among
    apply confined.reads
    rw [lookups]
    exact List.mem_append_right _ (mem_rowLookups.mpr ⟨item, member, among⟩)
  · intro name among
    apply confined.writes
    rw [written]
    exact List.mem_append_right _ (mem_rowWritten.mpr ⟨item, member, among⟩)

theorem base {spread : Option Expr} {properties : List (String × Expr)}
    (confined : (Expr.object spread properties).Confined reads writes) {base : Expr}
    (member : base ∈ spread) : base.Confined reads writes := by
  refine ⟨?_, ?_⟩
  · intro name among
    apply confined.reads
    rw [lookups]
    exact List.mem_append_left _ (mem_baseLookups.mpr ⟨base, member, among⟩)
  · intro name among
    apply confined.writes
    rw [written]
    exact List.mem_append_left _ (mem_baseWritten.mpr ⟨base, member, among⟩)

theorem property {spread : Option Expr} {properties : List (String × Expr)}
    (confined : (Expr.object spread properties).Confined reads writes)
    {property : String × Expr} (member : property ∈ properties) :
    property.2.Confined reads writes := by
  refine ⟨?_, ?_⟩
  · intro name among
    apply confined.reads
    rw [lookups]
    exact List.mem_append_right _ (mem_propertyLookups.mpr ⟨property, member, among⟩)
  · intro name among
    apply confined.writes
    rw [written]
    exact List.mem_append_right _ (mem_propertyWritten.mpr ⟨property, member, among⟩)

end Expr.Confined

/-- Two evaluators in two environments that no expression with the given names can tell apart. -/
structure SideBySide {m n : Type → Type} [Monad m] [Monad n] [LawfulMonad m] [LawfulMonad n]
    [MonadStateOf Store m] [MonadStateOf Store n] [MonadExceptOf RunError m]
    [MonadExceptOf RunError n]
    (relation : RunRelation m n) (functions : FunctionPairing) (stores : Store → Store → Prop)
    (reads writes : String → Prop) (eval : EvaluatorIn m) (otherEval : EvaluatorIn n)
    (env other : Environment) : Prop where
  get : relation.Relates stores get get
  lookup? : ∀ {store twin name}, stores store twin → reads name →
    Option.Rel (Value.Like functions) (store.lookup? env name) (twin.lookup? other name)
  define : ∀ {name value twin}, writes name → Value.Like functions value twin →
    relation.Relates (fun _ _ => True) (modify (·.define env name value))
      (modify (·.define other name twin))
  defineClosure : ∀ {name params body}, writes name →
    (∀ mention ∈ body.lookups, reads mention) →
    relation.Relates (fun _ _ => True) (modify (·.defineClosure env name params body))
      (modify (·.defineClosure other name params body))
  print : ∀ line, relation.Relates (fun _ _ => True) (modify (·.print line))
    (modify (·.print line))
  call : ∀ {callee twin args others}, functions.Paired callee twin →
    List.Forall₂ (Value.Like functions) args others →
    relation.Relates (Value.Like functions) (Eval.call eval callee args)
      (Eval.call otherEval twin others)
  eval : ∀ {expr}, expr.Confined reads writes →
    relation.Relates (Value.Like functions) (eval expr env) (otherEval expr other)

structure Operand.Like (functions : FunctionPairing) (reads writes : String → Prop)
    (operand twin : Operand) : Prop where
  expr_eq : operand.expr = twin.expr
  known : Option.Rel (Value.Like functions) operand.known twin.known
  confined : operand.expr.Confined reads writes

namespace SideBySide

variable {m n : Type → Type} [Monad m] [Monad n] [LawfulMonad m] [LawfulMonad n]
  [MonadStateOf Store m] [MonadStateOf Store n] [MonadExceptOf RunError m]
  [MonadExceptOf RunError n] {relation : RunRelation m n} {functions : FunctionPairing}
  {stores : Store → Store → Prop} {reads writes : String → Prop} {eval : EvaluatorIn m}
  {otherEval : EvaluatorIn n} {env other : Environment}
  (side : SideBySide relation functions stores reads writes eval otherEval env other)

include side

/-! ## Operands -/

section

variable {operand twin : Operand} {operands twins : List Operand}

theorem value (alike : operand.Like functions reads writes twin) :
    relation.Relates (Value.Like functions) (operand.value eval env)
      (twin.value otherEval other) := by
  rcases operand with ⟨expr, known⟩
  rcases twin with ⟨_, otherKnown⟩
  rcases alike with ⟨rfl, known, confined⟩
  cases known with
  | some values => exact relation.pure values
  | none => exact side.eval confined

theorem number (alike : operand.Like functions reads writes twin) :
    relation.Relates (· = ·) (operand.number eval env) (twin.number otherEval other) := by
  apply relation.bind (side.value alike)
  intro value otherValue values
  rw [values.toNumber_eq]
  exact relation.ofExcept (.refl (fun _ => rfl) _) fun _ => Value.isOverflow_of_toNumber

theorem values (alike : List.Forall₂ (Operand.Like functions reads writes) operands twins) :
    relation.Relates (List.Forall₂ (Value.Like functions)) (Operand.values eval env operands)
      (Operand.values otherEval other twins) :=
  relation.mapM alike fun _ _ => side.value

/-! ## Operations -/

theorem accumulate {combine : Float → Float → m Float} {otherCombine : Float → Float → n Float}
    (combines : ∀ total number, relation.Relates (· = ·) (combine total number)
      (otherCombine total number)) (start : Float)
    (alike : List.Forall₂ (Operand.Like functions reads writes) operands twins) :
    relation.Relates (Value.Like functions) (Builtin.accumulate eval env combine start operands)
      (Builtin.accumulate otherEval other otherCombine start twins) := by
  apply relation.bind
  · apply relation.foldlM alike
    · intro operand twin total otherTotal alike totals
      apply relation.bind (side.number alike)
      rintro number _ rfl
      rw [show total = otherTotal from totals]
      exact combines otherTotal number
    · rfl
  · rintro total _ rfl
    exact relation.pure (.number total)

theorem all (alike : List.Forall₂ (Operand.Like functions reads writes) operands twins) :
    relation.Relates (Value.Like functions) (Builtin.all eval env operands)
      (Builtin.all otherEval other twins) := by
  induction alike with
  | nil => exact relation.pure (.bool true)
  | cons first _ induction =>
      apply relation.bind (side.value first)
      intro value otherValue values
      rw [values.isTruthy_eq]
      split
      · exact induction
      · exact relation.pure (.bool false)

theorem any (alike : List.Forall₂ (Operand.Like functions reads writes) operands twins) :
    relation.Relates (Value.Like functions) (Builtin.any eval env operands)
      (Builtin.any otherEval other twins) := by
  induction alike with
  | nil => exact relation.pure (.bool false)
  | cons first _ induction =>
      apply relation.bind (side.value first)
      intro value otherValue values
      rw [values.isTruthy_eq]
      split
      · exact relation.pure (.bool true)
      · exact induction

omit [MonadStateOf Store m] [MonadStateOf Store n] side in
theorem itemsOf (keyword : String) {value otherValue : Value}
    (values : Value.Like functions value otherValue) :
    relation.Relates (List.Forall₂ (Value.Like functions)) (Builtin.itemsOf keyword value)
      (Builtin.itemsOf keyword otherValue) := by
  cases values with
  | list items => exact relation.pure items
  | null | bool | number | string | object | function => exact relation.throw rfl

omit [MonadStateOf Store m] [MonadStateOf Store n] side in
theorem lengthOf {value otherValue : Value} (values : Value.Like functions value otherValue) :
    relation.Relates (Value.Like functions) (Builtin.lengthOf value)
      (Builtin.lengthOf otherValue) := by
  cases values with
  | string text => exact relation.pure (.number _)
  | list items =>
      rw [Builtin.lengthOf, Builtin.lengthOf, items.length_eq]
      exact relation.pure (.number _)
  | null | bool | number | object | function => exact relation.throw rfl

theorem twoNumbers {first otherFirst second otherSecond : Operand}
    (firsts : first.Like functions reads writes otherFirst)
    (seconds : second.Like functions reads writes otherSecond) {next : Float → Float → m Value}
    {otherNext : Float → Float → n Value} (nexts : ∀ left right,
      relation.Relates (Value.Like functions) (next left right) (otherNext left right)) :
    relation.Relates (Value.Like functions)
      (do next (← first.number eval env) (← second.number eval env))
      (do otherNext (← otherFirst.number otherEval other)
            (← otherSecond.number otherEval other)) := by
  apply relation.bind (side.number firsts)
  rintro left _ rfl
  apply relation.bind (side.number seconds)
  rintro right _ rfl
  exact nexts left right

theorem twoValues {first otherFirst second otherSecond : Operand}
    (firsts : first.Like functions reads writes otherFirst)
    (seconds : second.Like functions reads writes otherSecond) {test : Value → Value → Bool}
    (same : ∀ {left otherLeft right otherRight}, Value.Like functions left otherLeft →
      Value.Like functions right otherRight → test left right = test otherLeft otherRight) :
    relation.Relates (Value.Like functions)
      (do return .bool (test (← first.value eval env) (← second.value eval env)))
      (do return .bool (test (← otherFirst.value otherEval other)
        (← otherSecond.value otherEval other))) := by
  apply relation.bind (side.value firsts)
  intro left otherLeft lefts
  apply relation.bind (side.value seconds)
  intro right otherRight rights
  rw [same lefts rights]
  exact relation.pure (.bool _)

theorem partOfItems (keyword : String) (alike : operand.Like functions reads writes twin)
    {part : List Value → Value}
    (parts : ∀ {items others}, List.Forall₂ (Value.Like functions) items others →
      Value.Like functions (part items) (part others)) :
    relation.Relates (Value.Like functions)
      (do return part (← Builtin.itemsOf keyword (← operand.value eval env)))
      (do return part (← Builtin.itemsOf keyword (← twin.value otherEval other))) := by
  apply relation.bind (side.value alike)
  intro value otherValue values
  apply relation.bind (itemsOf keyword values)
  intro items others itemsAlike
  exact relation.pure (parts itemsAlike)

theorem assignTo {target otherTarget value otherValue : Operand}
    (targets : target.Like functions reads writes otherTarget)
    (values : value.Like functions reads writes otherValue)
    (writable : ∀ name, target.expr.text? = some name → writes name) :
    relation.Relates (Value.Like functions) (Builtin.assignTo eval env target value)
      (Builtin.assignTo otherEval other otherTarget otherValue) := by
  unfold Builtin.assignTo
  rw [← targets.expr_eq]
  cases text : target.expr.text? with
  | none => exact relation.throw rfl
  | some name =>
      apply relation.bind (side.value values)
      intro result twin results
      apply relation.bind (side.define (writable name text) results)
      intro _ _ _
      exact relation.pure results

theorem printLine {values others : List Value}
    (alike : List.Forall₂ (Value.Like functions) values others) :
    relation.Relates (Value.Like functions) (Builtin.printLine values)
      (Builtin.printLine others) := by
  have texts : values.map Value.render = others.map Value.render :=
    Value.map_eq_of_forall₂ alike fun _ _ _ twins => twins.renderAt_eq false
  unfold Builtin.printLine
  rw [texts]
  apply relation.bind (side.print _)
  intro _ _ _
  exact relation.pure (Value.Like.getD (Value.getLast?_like alike))

omit side in
theorem run_of_length_ne (keyword : String) {builtin : Builtin} {count : Nat}
    (counted : builtin.operandCount? = some count) (wrong : operands.length ≠ count)
    (alike : List.Forall₂ (Operand.Like functions reads writes) operands twins) :
    relation.Relates (Value.Like functions) (Builtin.run eval env keyword builtin operands)
      (Builtin.run otherEval other keyword builtin twins) := by
  rw [Builtin.run_of_length_ne eval env keyword counted wrong,
    Builtin.run_of_length_ne otherEval other keyword counted (alike.length_eq ▸ wrong),
    alike.length_eq]
  exact relation.throw rfl

omit side in
theorem run_one (keyword : String) {builtin : Builtin}
    (counted : builtin.operandCount? = some 1)
    (alike : List.Forall₂ (Operand.Like functions reads writes) operands twins)
    (one : ∀ operand twin, operand.Like functions reads writes twin →
      relation.Relates (Value.Like functions) (Builtin.run eval env keyword builtin [operand])
        (Builtin.run otherEval other keyword builtin [twin])) :
    relation.Relates (Value.Like functions) (Builtin.run eval env keyword builtin operands)
      (Builtin.run otherEval other keyword builtin twins) := by
  by_cases count : operands.length = 1
  · rcases alike with _ | ⟨first, _ | _⟩
    · cases count
    · exact one _ _ first
    · cases count
  · exact run_of_length_ne keyword counted count alike

omit side in
theorem run_two (keyword : String) {builtin : Builtin}
    (counted : builtin.operandCount? = some 2)
    (alike : List.Forall₂ (Operand.Like functions reads writes) operands twins)
    (two : ∀ first otherFirst second otherSecond, operands = [first, second] →
      first.Like functions reads writes otherFirst →
      second.Like functions reads writes otherSecond →
      relation.Relates (Value.Like functions)
        (Builtin.run eval env keyword builtin [first, second])
        (Builtin.run otherEval other keyword builtin [otherFirst, otherSecond])) :
    relation.Relates (Value.Like functions) (Builtin.run eval env keyword builtin operands)
      (Builtin.run otherEval other keyword builtin twins) := by
  by_cases count : operands.length = 2
  · rcases alike with _ | ⟨first, _ | ⟨second, _ | _⟩⟩
    · cases count
    · cases count
    · exact two _ _ _ _ rfl first second
    · cases count
  · exact run_of_length_ne keyword counted count alike

omit [MonadStateOf Store m] [MonadStateOf Store n] side in
theorem unlessZero (divisor : Float) (result : Float) :
    relation.Relates (· = ·) (if divisor == 0 then throw .divisionByZero else pure result : m Float)
      (if divisor == 0 then throw .divisionByZero else pure result : n Float) := by
  split
  · exact relation.throw rfl
  · exact relation.pure rfl

/-- Running an operation. -/
theorem run (keyword : String) (builtin : Builtin)
    (alike : List.Forall₂ (Operand.Like functions reads writes) operands twins)
    (writable : builtin = .assign → ∀ target value name, operands = [target, value] →
      target.expr.text? = some name → writes name) :
    relation.Relates (Value.Like functions) (Builtin.run eval env keyword builtin operands)
      (Builtin.run otherEval other keyword builtin twins) := by
  cases builtin with
  | add => exact side.accumulate (fun _ _ => relation.pure rfl) 0 alike
  | multiply => exact side.accumulate (fun _ _ => relation.pure rfl) 1 alike
  | and => exact side.all alike
  | or => exact side.any alike
  | subtract =>
      cases alike with
      | nil => exact relation.throw rfl
      | cons first rest =>
          cases rest with
          | nil =>
              apply relation.bind (side.number first)
              rintro number _ rfl
              exact relation.pure (.number _)
          | cons second rest =>
              apply relation.bind (side.number first)
              rintro number _ rfl
              exact side.accumulate (fun _ _ => relation.pure rfl) number (.cons second rest)
  | divide =>
      cases alike with
      | nil => exact relation.throw rfl
      | cons first rest =>
          apply relation.bind (side.number first)
          rintro number _ rfl
          exact side.accumulate (fun _ divisor => unlessZero divisor _) number rest
  | remainder =>
      apply run_two keyword rfl alike
      intro first otherFirst second otherSecond _ firsts seconds
      apply side.twoNumbers firsts seconds
      intro left right
      apply relation.bind (unlessZero right _)
      rintro result _ rfl
      exact relation.pure (.number result)
  | compare comparison =>
      apply run_two keyword rfl alike
      intro first otherFirst second otherSecond _ firsts seconds
      apply side.twoNumbers firsts seconds
      intro left right
      exact relation.pure (.bool _)
  | equal =>
      apply run_two keyword rfl alike
      intro first otherFirst second otherSecond _ firsts seconds
      exact side.twoValues firsts seconds Value.Like.beq_eq
  | unequal =>
      apply run_two keyword rfl alike
      intro first otherFirst second otherSecond _ firsts seconds
      apply side.twoValues firsts seconds
      intro left otherLeft right otherRight lefts rights
      rw [bne, bne, lefts.beq_eq rights]
  | not =>
      apply run_one keyword rfl alike
      intro operand twin alike
      apply relation.bind (side.value alike)
      intro value otherValue values
      rw [values.isTruthy_eq]
      exact relation.pure (.bool _)
  | choose =>
      by_cases count : operands.length = 3
      · rcases alike with _ | ⟨first, _ | ⟨second, _ | ⟨third, _ | _⟩⟩⟩ <;> cases count
        apply relation.bind (side.value first)
        intro value otherValue values
        rw [values.isTruthy_eq]
        split
        · exact side.value second
        · exact side.value third
      · exact run_of_length_ne keyword rfl count alike
  | list =>
      apply relation.bind (side.values alike)
      intro values others valuesAlike
      exact relation.pure (.list valuesAlike)
  | firstItem =>
      apply run_one keyword rfl alike
      intro operand twin alike
      apply side.partOfItems keyword alike
      intro items others itemsAlike
      exact Value.Like.getD (Value.head?_like itemsAlike)
  | otherItems =>
      apply run_one keyword rfl alike
      intro operand twin alike
      apply side.partOfItems keyword alike
      intro items others itemsAlike
      exact .list (Value.tail_like itemsAlike)
  | concat =>
      apply relation.bind (side.values alike)
      intro values others valuesAlike
      exact relation.pure (.list (Value.flatMap_spliced_like valuesAlike))
  | length =>
      apply run_one keyword rfl alike
      intro operand twin alike
      apply relation.bind (side.value alike)
      intro value otherValue values
      exact lengthOf values
  | assign =>
      apply run_two keyword rfl alike
      intro target otherTarget value otherValue same targets values
      exact side.assignTo targets values fun name text => writable rfl target value name same text
  | print =>
      apply relation.bind (side.values alike)
      intro values others valuesAlike
      exact side.printLine valuesAlike

end

/-! ## Calls -/

theorem lookup {name : String} (readable : reads name) :
    relation.Relates (Option.Rel (Value.Like functions)) (Run.lookup? env name)
      (Run.lookup? other name) := by
  apply relation.bind side.get
  intro store twin alike
  exact relation.pure (side.lookup? alike readable)

theorem callWith {callee twin : Function} (paired : functions.Paired callee twin)
    {args : List Expr} (confined : ∀ arg ∈ args, arg.Confined reads writes) :
    relation.Relates (Value.Like functions) (Eval.callWith eval env callee args)
      (Eval.callWith otherEval other twin args) := by
  have sameArgs : List.Forall₂ (fun arg twin => arg = twin ∧ arg.Confined reads writes) args args :=
    List.forall₂_same.mpr fun arg member => ⟨rfl, confined arg member⟩
  apply relation.bind
  · apply relation.mapM sameArgs
    rintro arg _ ⟨rfl, inside⟩
    exact side.eval inside
  · intro values others alike
    exact side.call paired alike

theorem callBuiltin (name : String) {operands twins : List Operand}
    (alike : List.Forall₂ (Operand.Like functions reads writes) operands twins)
    (writable : name = "set" → ∀ target value mention, operands = [target, value] →
      target.expr.text? = some mention → writes mention) :
    relation.Relates (Value.Like functions) (Eval.callBuiltin eval env name operands)
      (Eval.callBuiltin otherEval other name twins) := by
  unfold Eval.callBuiltin
  cases found : Builtin.ofKeyword? name with
  | none => exact relation.throw rfl
  | some builtin =>
      apply side.run name builtin alike
      rintro rfl
      exact writable (Builtin.eq_set_of_ofKeyword? found)

theorem callNamed {name : String} (readable : reads name) {args : List Expr}
    (confined : ∀ arg ∈ args, arg.Confined reads writes) {operands twins : List Operand}
    (alike : List.Forall₂ (Operand.Like functions reads writes) operands twins)
    (writable : name = "set" → ∀ target value mention, operands = [target, value] →
      target.expr.text? = some mention → writes mention) :
    relation.Relates (Value.Like functions) (Eval.callNamed eval env name args operands)
      (Eval.callNamed otherEval other name args twins) := by
  have builtin := side.callBuiltin name alike writable
  apply relation.bind (side.lookup readable)
  intro found twin results
  cases results with
  | none => exact builtin
  | some values =>
      cases values with
      | function paired => exact side.callWith paired confined
      | null | bool | number | string | list | object => exact builtin

theorem fieldOrCall {name : String} (readable : reads name) {arg : Expr}
    (confined : arg.Confined reads writes) :
    relation.Relates (Value.Like functions) (Eval.fieldOrCall eval env name arg)
      (Eval.fieldOrCall otherEval other name arg) := by
  apply relation.bind (side.eval confined)
  intro target twin targets
  have fields := targets.field? name
  revert fields
  cases target.field? name <;> cases twin.field? name <;> intro fields
  · have operands : List.Forall₂ (Operand.Like functions reads writes) [⟨arg, some target⟩]
        [⟨arg, some twin⟩] :=
      .cons ⟨rfl, .some targets, confined⟩ .nil
    apply side.callNamed readable (List.forall_mem_singleton.mpr confined) operands
    intro _ _ _ _ impossible
    cases impossible
  · cases fields
  · cases fields
  · rcases fields with ⟨fields⟩
    exact relation.pure fields

/-! ## Expressions -/

theorem listNamed {name : String} (readable : reads name) {args : List Expr}
    (confined : ∀ arg ∈ args, arg.Confined reads writes)
    (writable : name = "set" → ∀ target value mention, args = [target, value] →
      target.text? = some mention → writes mention) :
    relation.Relates (Value.Like functions) (Eval.listNamed eval env name args)
      (Eval.listNamed otherEval other name args) := by
  have operands : List.Forall₂ (Operand.Like functions reads writes)
      (args.map fun arg => ⟨arg, none⟩) (args.map fun arg => ⟨arg, none⟩) := by
    apply List.forall₂_same.mpr
    intro operand member
    rcases List.mem_map.mp member with ⟨arg, among, rfl⟩
    exact ⟨rfl, .none, confined arg among⟩
  have called : relation.Relates (Value.Like functions)
      (Eval.callNamed eval env name args (args.map fun arg => ⟨arg, none⟩))
      (Eval.callNamed otherEval other name args (args.map fun arg => ⟨arg, none⟩)) := by
    apply side.callNamed readable confined operands
    intro isSet target value mention same text
    rcases args with _ | ⟨first, _ | ⟨second, _ | _⟩⟩ <;> cases same
    exact writable isSet first second mention rfl text
  apply relation.bind side.get
  intro store twin alike
  have bound : store.contains env name = twin.contains other name := by
    rw [Store.contains_eq_isSome, Store.contains_eq_isSome]
    exact isSome_eq_of_rel (side.lookup? alike readable)
  rw [bound]
  rcases args with _ | ⟨arg, _ | ⟨second, rest⟩⟩
  · exact called
  · dsimp only
    split
    · exact side.fieldOrCall readable (confined arg List.mem_cons_self)
    · exact called
  · exact called

theorem listComputed {head : Expr} (headConfined : head.Confined reads writes) {args : List Expr}
    (confined : ∀ arg ∈ args, arg.Confined reads writes) :
    relation.Relates (Value.Like functions) (Eval.listComputed eval env head args)
      (Eval.listComputed otherEval other head args) := by
  apply relation.bind (side.eval headConfined)
  intro value twin values
  cases values with
  | function paired => exact side.callWith paired confined
  | null | bool | number | string | list | object => exact relation.throw rfl

theorem list {items : List Expr} (confined : (Expr.list items).Confined reads writes) :
    relation.Relates (Value.Like functions) (Eval.list eval env items)
      (Eval.list otherEval other items) := by
  have inner : ∀ item ∈ items, item.Confined reads writes := fun item => confined.item
  rcases items with _ | ⟨head, args⟩
  · exact relation.pure .null
  · rw [List.forall_mem_cons] at inner
    cases text : head.text? with
    | none =>
        simp only [Eval.list, text]
        exact side.listComputed inner.1 inner.2
    | some name =>
        simp only [Eval.list, text]
        apply side.listNamed (confined.head text) inner.2
        rintro rfl target value mention rfl written
        apply confined.writes
        simp [Expr.written, Expr.assigned, text, written]

theorem atom {word : Atom} (confined : (Expr.atom word).Confined reads writes) :
    relation.Relates (Value.Like functions) (Eval.atom env word) (Eval.atom other word) := by
  cases word with
  | symbol name =>
      apply relation.bind (side.lookup (confined.reads name (by simp [Expr.lookups, Atom.symbol?])))
      intro found twin results
      cases results with
      | some values => exact relation.pure values
      | none =>
          dsimp only
          split
          · exact relation.throw rfl
          · exact relation.pure (.string name)
  | null => exact relation.pure .null
  | bool value => exact relation.pure (.bool value)
  | number value => exact relation.pure (.number value)
  | string text => exact relation.pure (.string text)

theorem base {spread : Option Expr} (confined : ∀ base ∈ spread, base.Confined reads writes) :
    relation.Relates (Table.Rel (Value.Like functions)) (Eval.base eval env spread)
      (Eval.base otherEval other spread) := by
  cases spread with
  | none => exact relation.pure .nil
  | some expr =>
      apply relation.bind (side.eval (confined expr rfl))
      intro value twin values
      cases values with
      | object fields => exact relation.pure fields
      | null | bool | number | string | list | function => exact relation.throw rfl

theorem object {spread : Option Expr} {properties : List (String × Expr)}
    (confined : (Expr.object spread properties).Confined reads writes) :
    relation.Relates (Value.Like functions) (Eval.object eval env spread properties)
      (Eval.object otherEval other spread properties) := by
  have sameProperties : List.Forall₂
      (fun property twin => property = twin ∧ property.2.Confined reads writes)
      properties properties :=
    List.forall₂_same.mpr fun property member => ⟨rfl, confined.property member⟩
  apply relation.bind (side.base fun base => confined.base)
  intro start otherStart starts
  apply relation.bind
  · apply relation.foldlM sameProperties _ starts
    rintro property _ fields others ⟨rfl, inside⟩ alike
    apply relation.bind (side.eval inside)
    intro value twin values
    exact relation.pure (Table.Rel.insert alike property.1 values)
  · intro fields others alike
    exact relation.pure (.object alike)

/-- One level of evaluation. -/
theorem step {expr : Expr} (confined : expr.Confined reads writes) :
    relation.Relates (Value.Like functions) (Eval.step eval expr env)
      (Eval.step otherEval expr other) := by
  cases expr with
  | atom word => exact side.atom confined
  | list items => exact side.list confined
  | object spread properties => exact side.object confined
  | function name params body =>
      apply relation.bind (side.defineClosure (confined.writes name (by simp [Expr.written])) _)
      · intro _ _ _
        exact relation.pure .null
      · exact confined.reads

end SideBySide

/-- Evaluators that are compared on one and the same store. -/
theorem SideBySide.ofSame {m n : Type → Type} [Monad m] [Monad n] [LawfulMonad m] [LawfulMonad n]
    [MonadStateOf Store m] [MonadStateOf Store n] [MonadExceptOf RunError m]
    [MonadExceptOf RunError n] {relation : RunRelation m n} {eval : EvaluatorIn m}
    {otherEval : EvaluatorIn n} {env : Environment}
    (gets : relation.Relates (· = ·) MonadState.get MonadState.get)
    (defines : ∀ name value, relation.Relates (fun _ _ => True)
      (modify (Store.define · env name value)) (modify (Store.define · env name value)))
    (definesClosures : ∀ name params body, relation.Relates (fun _ _ => True)
      (modify (Store.defineClosure · env name params body))
      (modify (Store.defineClosure · env name params body)))
    (prints : ∀ line, relation.Relates (fun _ _ => True) (modify (Store.print · line))
      (modify (Store.print · line)))
    (calls : ∀ callee args, relation.Relates (Value.Like .identity) (Eval.call eval callee args)
      (Eval.call otherEval callee args))
    (evals : ∀ expr, relation.Relates (Value.Like .identity) (eval expr env) (otherEval expr env)) :
    SideBySide relation .identity (· = ·) (fun _ => True) (fun _ => True) eval otherEval env
      env where
  get := gets
  lookup? := by
    intro store twin name same _
    rw [same]
    exact Value.Like.refl_option _
  define := by
    intro name value twin _ values
    rw [values.eq_of_identity]
    exact defines name twin
  defineClosure _ _ := definesClosures _ _ _
  print := prints
  call := by
    intro callee twin args others same alike
    rw [show callee = twin from same, Value.eq_of_forall₂_identity alike]
    exact calls twin others
  eval _ := evals _

end RuleLisp
