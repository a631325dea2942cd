import RuleLisp.Proofs.Eval.Upholds
import RuleLisp.Proofs.Grammar.Reader

/-! # Programs without functions

Where nothing defines a function and no variable holds one, nothing can be called that was not
there before. Evaluation then goes only as deep as the expression, and the expressions of a source
are only as deep as its brackets.
-/

namespace RuleLisp

/-! ## Shallow expressions -/

/-- There are enough levels to evaluate an expression in which nothing is defined. -/
def Expr.IsShallow : (levels : Nat) → Expr → Prop
  | 0, _ => False
  | levels + 1, expr =>
      (∀ name params body, expr ≠ .function name params body) ∧
        ∀ part ∈ expr.parts, part.IsShallow levels

theorem Expr.IsShallow.mono {levels more : Nat} (le : levels ≤ more) {expr : Expr}
    (shallow : expr.IsShallow levels) : expr.IsShallow more := by
  induction more generalizing levels expr with
  | zero =>
      rw [Nat.le_zero.mp le] at shallow
      exact shallow
  | succ more induction =>
      cases levels with
      | zero => exact shallow.elim
      | succ levels =>
          refine ⟨shallow.1, ?_⟩
          intro part member
          exact induction (Nat.le_of_succ_le_succ le) (shallow.2 part member)

theorem Expr.isShallow_of_mem_ofList {levels : Nat} {properties : List (String × Expr)}
    (shallow : ∀ property ∈ properties, property.2.IsShallow levels) :
    ∀ part ∈ (Table.ofList properties).map Prod.snd, part.IsShallow levels := by
  intro part member
  rcases List.mem_map.mp member with ⟨property, among, same⟩
  exact same ▸ shallow property (Table.mem_of_mem_ofList among)

/-- The two lexemes that start a definition never come one after the other. -/
def Lexeme.DefineNothing (lexemes : List Lexeme) : Prop :=
  ¬[.opening .round, .word Expr.functionWord] <:+: lexemes

theorem Lexeme.DefineNothing.of_infix {lexemes others : List Lexeme} (within : others <:+: lexemes)
    (plain : DefineNothing lexemes) : DefineNothing others :=
  fun found => plain (found.trans within)

namespace Tree

open Lexeme (DefineNothing)

mutual

theorem isShallow_of_derives : ∀ (tree : Tree) {limit : Nat} {expr : Expr},
    Derives limit tree expr → DefineNothing tree.lexemes → expr.IsShallow (limit + 1)
  | .word text => by
      intro derives _
      cases derives
      exact ⟨nofun, nofun⟩
  | .list items => by
      intro derives plain
      rcases derives with _ | ⟨_, derived⟩
      refine ⟨nofun, isShallow_of_derivesRow items derived (plain.of_infix ?_)⟩
      exact ⟨[.opening .round], [.closing .round], by simp [lexemes]⟩
  | .function name params body => by
      intro _ plain
      exact absurd ⟨[], _, by rw [lexemes]; rfl⟩ plain
  | .object entries => by
      intro derives plain
      rcases derives with _ | _ | _ | ⟨_, derived⟩
      have shallow := isShallow_of_derivesEntries entries derived (plain.of_infix
        ⟨[.opening .curly], [.closing .curly], by simp [lexemes]⟩)
      exact ⟨nofun, Expr.isShallow_of_mem_ofList shallow⟩
  | .extension base entries => by
      intro derives plain
      rcases derives with _ | _ | _ | _ | ⟨extended, derived⟩
      have baseShallow := isShallow_of_derives base extended (plain.of_infix
        ⟨[.opening .curly, .word Expr.spreadWord], entryLexemes entries ++ [.closing .curly],
          by simp [lexemes]⟩)
      have shallow := isShallow_of_derivesEntries entries derived (plain.of_infix
        ⟨.opening .curly :: .word Expr.spreadWord :: base.lexemes, [.closing .curly],
          by simp [lexemes]⟩)
      refine ⟨nofun, ?_⟩
      intro part member
      rcases List.mem_cons.mp member with same | later
      · exact same ▸ baseShallow
      · exact Expr.isShallow_of_mem_ofList shallow part later

theorem isShallow_of_derivesRow : ∀ (trees : List Tree) {limit : Nat} {exprs : List Expr},
    DerivesRow limit trees exprs → DefineNothing (rowLexemes trees) →
    ∀ expr ∈ exprs, expr.IsShallow (limit + 1)
  | [] => by
      intro derives _
      cases derives
      exact nofun
  | tree :: trees => by
      intro derives plain
      rcases derives with _ | ⟨first, rest⟩
      rw [List.forall_mem_cons]
      refine ⟨isShallow_of_derives tree first (plain.of_infix ?_),
        isShallow_of_derivesRow trees rest (plain.of_infix ?_)⟩
      · exact (List.prefix_append _ _).isInfix
      · exact (List.suffix_append _ _).isInfix

theorem isShallow_of_derivesEntries : ∀ (entries : List (String × Tree)) {limit : Nat}
    {properties : List (String × Expr)}, DerivesEntries limit entries properties →
    DefineNothing (entryLexemes entries) → ∀ property ∈ properties, property.2.IsShallow (limit + 1)
  | [] => by
      intro derives _
      cases derives
      exact nofun
  | (key, tree) :: entries => by
      intro derives plain
      rcases derives with _ | ⟨_, _, first, rest⟩
      rw [List.forall_mem_cons]
      refine ⟨isShallow_of_derives tree first (plain.of_infix ?_),
        isShallow_of_derivesEntries entries rest (plain.of_infix ?_)⟩
      · exact ⟨[.word key], entryLexemes entries, by simp [entryLexemes]⟩
      · exact ⟨.word key :: tree.lexemes, [], by simp [entryLexemes]⟩

end

end Tree

/-! ## Runs on variables that hold no functions -/

def ValueProperty.functionFree : ValueProperty where
  Holds := Value.IsFunctionFree
  null := .null
  bool := .bool
  number := .number
  string := .string
  list := .list
  item := .item
  empty := .object (List.forall_mem_nil _)
  insert fields key value := .object (Table.forall_mem_insert fields.field key value)
  field := .field

def Store.IsFunctionFreeAt (store : Store) (number : Nat) : Prop :=
  ∀ binding ∈ store.scope number, binding.2.IsFunctionFree

def Store.IsFunctionFreeIn (store : Store) (scopes : Nat → Prop) : Prop :=
  ∀ number, scopes number → store.IsFunctionFreeAt number

theorem Store.IsFunctionFreeIn.lookup? {store : Store} {scopes : Nat → Prop}
    (free : store.IsFunctionFreeIn scopes) {env : Environment}
    (covered : ∀ number ∈ env.scopes, scopes number) {name : String} {value : Value}
    (found : store.lookup? env name = some value) : value.IsFunctionFree := by
  rcases List.exists_of_findSome?_eq_some found with ⟨number, member, got⟩
  exact free number (covered number member) _ (Table.mem_of_get? got)

structure Run.EndsWithoutFunctions {α : Type} (scopes : Nat → Prop) (results : α → Prop)
    (ran : Except RunError α × Store) : Prop where
  store : ran.2.IsFunctionFreeIn scopes
  result : ∀ result, ran.1 = .ok result → results result
  calm : ∀ error, ran.1 = .error error → error.isOverflow = false

def RunProperty.withoutFunctions (scopes : Nat → Prop) : RunProperty Unit Run where
  Holds _ results run := ∀ store, store.IsFunctionFreeIn scopes →
    Run.EndsWithoutFunctions scopes (results ()) (run.runOn store)
  pure := by
    intro α _ results result holds store free
    refine ⟨free, ?_, nofun⟩
    intro other same
    cases same
    exact holds
  throw := by
    intro α _ results error calm store free
    refine ⟨free, nofun, ?_⟩
    intro other same
    cases same
    exact calm
  bind := by
    intro α β _ results lasts first next firsts nexts store free
    have ends := firsts store free
    rcases ran : first.runOn store with ⟨error | result, after⟩
    · rw [ran] at ends
      rw [Run.runOn_bind_error ran]
      exact ⟨ends.store, nofun, fun other same => ends.calm other (by cases same; rfl)⟩
    · rw [ran] at ends
      rw [Run.runOn_bind_ok ran]
      exact nexts () le_rfl result (ends.result result rfl) after ends.store

namespace Eval

variable {scopes : Nat → Prop} {env : Environment} (covered : ∀ number ∈ env.scopes, scopes number)

include covered

theorem upholds_withoutFunctions {eval : Evaluator} {levels : Nat}
    (evals : ∀ {expr : Expr}, expr.IsShallow levels →
      (RunProperty.withoutFunctions scopes).Holds () (fun _ => Value.IsFunctionFree)
        (eval expr env)) :
    Upholds (.withoutFunctions scopes) (fun _ => .functionFree) (Expr.IsShallow levels) eval env
      () where
  monotone := monotone_const
  get := by
    intro _ _ store free
    refine ⟨free, ?_, nofun⟩
    intro seen same name value found
    cases same
    exact free.lookup? covered found
  define := by
    intro _ name value _ valueFree store free
    refine ⟨?_, fun _ _ => trivial, nofun⟩
    intro number among
    exact Store.forall_mem_scope_define (free number among) env name valueFree
  print := by
    intro _ line _ store free
    exact ⟨free, fun _ _ => trivial, nofun⟩
  call := by
    intro _ callee args _ known
    cases known with
    | function impossible => exact impossible.elim
  eval _ shallow := evals shallow

theorem holds_within_withoutFunctions (limit : Nat) {remaining : Nat} {expr : Expr}
    (shallow : expr.IsShallow remaining) :
    (RunProperty.withoutFunctions scopes).Holds () (fun _ => Value.IsFunctionFree)
      (within limit remaining expr env) := by
  induction remaining generalizing expr with
  | zero => exact shallow.elim
  | succ remaining induction =>
      apply (upholds_withoutFunctions covered induction).step shallow.2
      intro name params body defined
      exact absurd defined (shallow.1 name params body)

theorem holds_exprs_withoutFunctions {limit : Nat} {items : List Expr}
    (shallow : ∀ item ∈ items, item.IsShallow limit) :
    (RunProperty.withoutFunctions scopes).Holds () (fun _ => Value.IsFunctionFree)
      (exprs limit env items) := by
  apply RunProperty.foldlM _ _ .null
  intro item member _ _ _ _
  exact holds_within_withoutFunctions covered limit (shallow item member)

omit covered

/-- A program that defines no functions and finds none in its variables needs one level more than
its brackets, and it makes no functions. -/
theorem no_overflow_without_functions {nesting limit : Nat} {source : String} {items : List Expr}
    {store : Store} (accepted : Expr.parse nesting source = .ok items)
    (plain : Lexeme.DefineNothing (Lexeme.scan source))
    (free : ∀ number ∈ env.scopes, store.IsFunctionFreeAt number) (enough : nesting + 1 ≤ limit) :
    let ran := (exprs limit env items).runOn store
    (∀ reported, ran.1 ≠ .error (.stackOverflow reported)) ∧
      (∀ number, store.IsFunctionFreeAt number → ran.2.IsFunctionFreeAt number) ∧
      ∀ value, ran.1 = .ok value → value.IsFunctionFree := by
  intro ran
  rcases Expr.parse_eq_ok_iff.mp accepted with ⟨trees, derives⟩
  have shallow : ∀ item ∈ items, item.IsShallow limit := by
    intro item member
    rw [← derives.lexemes_eq] at plain
    exact (Tree.isShallow_of_derivesRow trees derives.derived plain item member).mono enough
  have ends : Run.EndsWithoutFunctions store.IsFunctionFreeAt Value.IsFunctionFree ran :=
    holds_exprs_withoutFunctions free shallow store fun _ => id
  refine ⟨?_, ends.store, ends.result⟩
  intro reported failed
  cases ends.calm _ failed

/-- Brackets as deep as they may be, and a function in a scope that the program does not see. -/
theorem no_overflow_without_functions_nested :
    let source := "(print (list x y) defun)"
    let env : Environment := ⟨1, [0]⟩
    let store : Store :=
      ⟨#[[("x", .null)], [("y", .list [.bool true])], [("f", .function (.host 0 "f"))]], 0,
        #[fun _ => .error (.stackOverflow 0)], #[]⟩
    let items : List Expr :=
      [.list [.atom (.symbol "print"),
        .list [.atom (.symbol "list"), .atom (.symbol "x"), .atom (.symbol "y")],
        .atom (.symbol "defun")]]
    let ran := (exprs 3 env items).runOn store
    Expr.parse 2 source = .ok items ∧ Lexeme.DefineNothing (Lexeme.scan source) ∧
      (∀ number ∈ env.scopes, store.IsFunctionFreeAt number) ∧
      (∀ reported, ran.1 ≠ .error (.stackOverflow reported)) ∧
      (∀ number, store.IsFunctionFreeAt number → ran.2.IsFunctionFreeAt number) ∧
      ∀ value, ran.1 = .ok value → value.IsFunctionFree := by
  intro source env store items ran
  have accepted : Expr.parse 2 source = .ok items := by
    rw [Expr.parse_eq_readAll, Token.scan_eq_ofChars]
    unfold source
    rfl
  have scanned : Lexeme.scan source =
      [.opening .round, .word "print", .opening .round, .word "list", .word "x", .word "y",
        .closing .round, .word "defun", .closing .round] := by
    rw [Lexeme.scan, Token.scan_eq_ofChars]
    unfold source
    rfl
  have plain : Lexeme.DefineNothing (Lexeme.scan source) := by
    rw [scanned]
    unfold Lexeme.DefineNothing
    decide
  have free : ∀ number ∈ env.scopes, store.IsFunctionFreeAt number := by
    have inner : ∀ binding ∈ [("y", Value.list [.bool true])], binding.2.IsFunctionFree := by
      simp [Value.AllFunctions.list, Value.AllFunctions.bool]
    have outer : ∀ binding ∈ [("x", Value.null)], binding.2.IsFunctionFree := by
      simp [Value.AllFunctions.null]
    exact List.forall_mem_cons.mpr ⟨inner, List.forall_mem_singleton.mpr outer⟩
  exact ⟨accepted, plain, free, no_overflow_without_functions accepted plain free (by decide)⟩

end Eval

end RuleLisp
