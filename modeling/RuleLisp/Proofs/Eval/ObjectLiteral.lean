import RuleLisp.Proofs.Eval.Frame
import RuleLisp.Proofs.Eval.WellFormed
import RuleLisp.Proofs.Expr.RoundTrip
import RuleLisp.Proofs.Table

/-! # Object literals

A key that a literal repeats is settled when the source is read: it keeps its first place and its
last expression. A key that the extended object has too is settled when the literal is evaluated: it
keeps the place in that object and gets the value from the literal.
-/

namespace RuleLisp

/-! ## Literals in a source -/

inductive Expr.IsPartOf (expr : Expr) : Expr → Prop
  | self : IsPartOf expr expr
  | part {part whole : Expr} (member : part ∈ whole.parts) (inside : IsPartOf expr part) :
      IsPartOf expr whole
  | body {name : String} {params : List String} {body : Expr} (inside : IsPartOf expr body) :
      IsPartOf expr (.function name params body)

namespace Tree

def literal (entries : List (String × Tree)) : Option Tree → Tree
  | none => .object entries
  | some base => .extension base entries

/-- Some lexemes, one after the other, are an object literal with these keys and expressions. -/
inductive HoldsLiteral (lexemes : List Lexeme) (spread : Option Expr)
    (written : List (String × Expr)) : Prop
  | mk {limit : Nat} {base : Option Tree} {entries : List (String × Tree)}
      (place : (literal entries base).lexemes <:+: lexemes)
      (extended : Option.Rel (Derives limit) base spread)
      (derived : DerivesEntries limit entries written)

theorem infix_rowLexemes {trees : List Tree} {tree : Tree} (member : tree ∈ trees) :
    tree.lexemes <:+: rowLexemes trees := by
  rcases List.append_of_mem member with ⟨before, after, rfl⟩
  exact ⟨rowLexemes before, rowLexemes after, by simp [rowLexemes_append, rowLexemes]⟩

theorem DerivesEntries.exists_of_mem {limit : Nat} {entries : List (String × Tree)}
    {properties : List (String × Expr)} (derived : DerivesEntries limit entries properties)
    {property : String × Expr} (member : property ∈ properties) :
    ∃ tree, Derives limit tree property.2 ∧ tree.lexemes <:+: entryLexemes entries := by
  induction properties generalizing entries with
  | nil => cases member
  | cons head tail induction =>
      rcases derived with _ | @⟨_, word, _, _, tree, _, entries, _, _, _, first, rest⟩
      rcases List.mem_cons.mp member with rfl | member
      · exact ⟨tree, first, [.word word], entryLexemes entries, by simp [entryLexemes]⟩
      · rcases induction rest member with ⟨other, derived, place⟩
        refine ⟨other, derived, place.trans ?_⟩
        exact ⟨.word word :: tree.lexemes, [], by simp [entryLexemes]⟩

theorem Derives.exists_part {limit : Nat} {tree : Tree} {whole part : Expr}
    (derived : Derives limit tree whole) (member : part ∈ whole.parts) :
    ∃ inner other, Derives inner other part ∧ other.lexemes <:+: tree.lexemes := by
  cases derived with
  | word | function => cases member
  | @list limit items _ _ derived =>
      rcases derived.exists_of_mem member with ⟨other, among, derived⟩
      refine ⟨limit, other, derived, (infix_rowLexemes among).trans ?_⟩
      exact ⟨[.opening .round], [.closing .round], by simp [lexemes]⟩
  | @object limit entries properties _ derived =>
      rcases List.mem_map.mp member with ⟨property, among, rfl⟩
      rcases derived.exists_of_mem (Table.mem_of_mem_ofList among) with ⟨other, derived, place⟩
      refine ⟨limit, other, derived, place.trans ?_⟩
      exact ⟨[.opening .curly], [.closing .curly], by simp [lexemes]⟩
  | @extension limit base spread entries properties extended derived =>
      rcases List.mem_cons.mp member with rfl | member
      · refine ⟨limit, base, extended, ?_⟩
        exact ⟨[.opening .curly, .word Expr.spreadWord],
          entryLexemes entries ++ [.closing .curly], by simp [lexemes]⟩
      · rcases List.mem_map.mp member with ⟨property, among, rfl⟩
        rcases derived.exists_of_mem (Table.mem_of_mem_ofList among) with ⟨other, derived, place⟩
        refine ⟨limit, other, derived, place.trans ?_⟩
        exact ⟨.opening .curly :: .word Expr.spreadWord :: base.lexemes, [.closing .curly],
          by simp [lexemes]⟩

theorem Derives.exists_literal {limit : Nat} {tree : Tree} {spread : Option Expr}
    {properties : List (String × Expr)} (derived : Derives limit tree (.object spread properties)) :
    ∃ written, HoldsLiteral tree.lexemes spread written ∧ properties = Table.ofList written := by
  cases derived with
  | @object limit entries written _ derived =>
      exact ⟨written, ⟨(List.infix_refl (literal entries none).lexemes), .none, derived⟩, rfl⟩
  | @extension limit base _ entries written extended derived =>
      exact ⟨written, ⟨List.infix_refl (literal entries (some base)).lexemes, .some extended,
        derived⟩, rfl⟩

theorem HoldsLiteral.of_infix {lexemes others : List Lexeme} {spread : Option Expr}
    {written : List (String × Expr)} (holds : HoldsLiteral others spread written)
    (within : others <:+: lexemes) : HoldsLiteral lexemes spread written := by
  rcases holds with ⟨place, extended, derived⟩
  exact ⟨place.trans within, extended, derived⟩

theorem Derives.exists_literal_of_isPartOf {limit : Nat} {tree : Tree} {whole : Expr}
    (derived : Derives limit tree whole) {spread : Option Expr} {properties : List (String × Expr)}
    (inside : (Expr.object spread properties).IsPartOf whole) :
    ∃ written, HoldsLiteral tree.lexemes spread written ∧ properties = Table.ofList written := by
  induction inside generalizing limit tree with
  | self => exact derived.exists_literal
  | part member _ induction =>
      rcases derived.exists_part member with ⟨inner, other, otherDerived, place⟩
      rcases induction otherDerived with ⟨written, holds, same⟩
      exact ⟨written, holds.of_infix place, same⟩
  | @body name params _ _ induction =>
      rcases derived with _ | _ | ⟨_, _, bodyDerived⟩
      rcases induction bodyDerived with ⟨written, holds, same⟩
      refine ⟨written, holds.of_infix ?_, same⟩
      exact ⟨.opening .round :: .word Expr.functionWord :: .opening .round ::
        ((name :: params).map Lexeme.word ++ [.closing .round]), [.closing .round],
        by simp [lexemes]⟩

end Tree

theorem Expr.exists_literal_of_parse {nesting : Nat} {source : String} {exprs : List Expr}
    (parsed : Expr.parse nesting source = .ok exprs) {expr : Expr} (member : expr ∈ exprs)
    {spread : Option Expr} {properties : List (String × Expr)}
    (inside : (Expr.object spread properties).IsPartOf expr) :
    ∃ written, Tree.HoldsLiteral (Lexeme.scan source) spread written ∧
      properties = Table.ofList written := by
  rcases Expr.parse_eq_ok_iff.mp parsed with ⟨trees, derives⟩
  rcases derives.derived.exists_of_mem member with ⟨tree, among, derived⟩
  rcases derived.exists_literal_of_isPartOf inside with ⟨written, holds, same⟩
  rw [← derives.lexemes_eq]
  exact ⟨written, holds.of_infix (Tree.infix_rowLexemes among), same⟩

/-! ## Overriding -/

/-- A table that has what two others have, in the places of the first and with the values of the
second. -/
structure Table.Overrides {α : Type} (start own result : Table α) : Prop where
  keys : Table.keys result = Table.keys start ++ (Table.keys own).filter (· ∉ Table.keys start)
  get? : ∀ key, Table.get? key result = (Table.get? key own).or (Table.get? key start)

theorem Table.overrides_insertAll {α : Type} (start : Table α) {own : Table α}
    (distinct : (Table.keys own).Nodup) : Overrides start own (insertAll start own) where
  keys := by
    rw [keys_insertAll, ← keys_ofList, ofList_of_nodup distinct]
  get? key := by
    rw [get?_insertAll, ← get?_ofList, ofList_of_nodup distinct]

namespace Eval

section

variable (eval : Evaluator) (env : Environment)

/-- Properties are evaluated one after the other, each on the store that the one before has left,
and each has a value. -/
inductive Evaluates : Store → List (String × Expr) → Table Value → Store → Prop
  | nil {store : Store} : Evaluates store [] [] store
  | cons {store middle after : Store} {key : String} {expr : Expr} {value : Value}
      {properties : List (String × Expr)} {fields : Table Value}
      (first : (eval expr env).runOn store = (.ok value, middle))
      (rest : Evaluates middle properties fields after) :
      Evaluates store ((key, expr) :: properties) ((key, value) :: fields) after

inductive FailsAmong : Store → List (String × Expr) → RunError → Store → Prop
  | here {store after : Store} {key : String} {expr : Expr} {error : RunError}
      {properties : List (String × Expr)}
      (failed : (eval expr env).runOn store = (.error error, after)) :
      FailsAmong store ((key, expr) :: properties) error after
  | later {store middle after : Store} {key : String} {expr : Expr} {value : Value}
      {error : RunError} {properties : List (String × Expr)}
      (first : (eval expr env).runOn store = (.ok value, middle))
      (rest : FailsAmong middle properties error after) :
      FailsAmong store ((key, expr) :: properties) error after

/-- The fields that a literal starts from, and the store that finding them has left. -/
inductive Spreads (store : Store) : Option Expr → Table Value → Store → Prop
  | nothing : Spreads store none [] store
  | object {base : Expr} {fields : Table Value} {middle : Store}
      (evaluated : (eval base env).runOn store = (.ok (.object fields), middle)) :
      Spreads store (some base) fields middle

/-- How the evaluation of a literal ends. What it leaves is the store that the last expression has
left which it evaluated. -/
inductive EndsLiteral (spread : Option Expr) (properties : List (String × Expr)) (store : Store) :
    Except RunError Value × Store → Prop
  | spreadFails {base : Expr} {error : RunError} {after : Store} (given : spread = some base)
      (failed : (eval base env).runOn store = (.error error, after)) :
      EndsLiteral spread properties store (.error error, after)
  | spreadRefused {base : Expr} {value : Value} {after : Store} (given : spread = some base)
      (evaluated : (eval base env).runOn store = (.ok value, after))
      (other : ∀ fields, value ≠ .object fields) :
      EndsLiteral spread properties store (.error (.invalidSpread value.typeName), after)
  | propertyFails {start : Table Value} {middle after : Store} {error : RunError}
      (spreads : Spreads eval env store spread start middle)
      (fails : FailsAmong eval env middle properties error after) :
      EndsLiteral spread properties store (.error error, after)
  | returns {start own result : Table Value} {middle after : Store}
      (spreads : Spreads eval env store spread start middle)
      (evaluated : Evaluates eval env middle properties own after)
      (overrides : Table.Overrides start own result) :
      EndsLiteral spread properties store (.ok (.object result), after)

end

variable {eval : Evaluator} {env : Environment}

theorem Evaluates.keys_eq {store after : Store} {properties : List (String × Expr)}
    {fields : Table Value} (evaluated : Evaluates eval env store properties fields after) :
    Table.keys fields = Table.keys properties := by
  induction evaluated with
  | nil => rfl
  | cons _ _ induction => exact congrArg _ induction

/-- Properties that are written into a table while they are evaluated. -/
theorem runOn_properties (properties : List (String × Expr)) (start : Table Value)
    (store : Store) :
    let run : Run (Table Value) := properties.foldlM
      (fun fields property => do return Table.insert property.1 (← eval property.2 env) fields)
      start
    (∃ fields after, Evaluates eval env store properties fields after ∧
      run.runOn store = (.ok (Table.insertAll start fields), after)) ∨
    ∃ error after, FailsAmong eval env store properties error after ∧
      run.runOn store = (.error error, after) := by
  induction properties generalizing start store with
  | nil => exact .inl ⟨[], store, .nil, rfl⟩
  | cons property rest induction =>
      rcases property with ⟨key, expr⟩
      intro run
      have opened : run = eval expr env >>= fun value => rest.foldlM
          (fun fields property => do return Table.insert property.1 (← eval property.2 env) fields)
          (Table.insert key value start) := by
        simp [run]
      rw [opened]
      rcases evaluated : (eval expr env).runOn store with ⟨error | value, middle⟩
      · rw [Run.runOn_bind_error evaluated]
        exact .inr ⟨error, middle, .here evaluated, rfl⟩
      · rw [Run.runOn_bind_ok evaluated]
        rcases induction (Table.insert key value start) middle with
          ⟨fields, after, row, ran⟩ | ⟨error, after, fails, ran⟩
        · exact .inl ⟨(key, value) :: fields, after, .cons evaluated row, ran⟩
        · exact .inr ⟨error, after, .later evaluated fails, ran⟩

/-- The properties of a literal, when the fields that it starts from are known. -/
theorem EndsLiteral.of_spreads {spread : Option Expr} {properties : List (String × Expr)}
    (distinct : (Table.keys properties).Nodup) {start : Table Value} {store middle : Store}
    (spreads : Spreads eval env store spread start middle) :
    EndsLiteral eval env spread properties store
      (Run.runOn (do
        let fields ← properties.foldlM
          (fun fields property => do return Table.insert property.1 (← eval property.2 env) fields)
          start
        return .object fields) middle) := by
  rcases runOn_properties properties start middle with
    ⟨own, after, evaluated, ran⟩ | ⟨error, after, fails, ran⟩
  · rw [Run.runOn_bind_ok ran]
    rw [← evaluated.keys_eq] at distinct
    exact .returns spreads evaluated (Table.overrides_insertAll start distinct)
  · rw [Run.runOn_bind_error ran]
    exact .propertyFails spreads fails

theorem endsLiteral_object (eval : Evaluator) (env : Environment) (spread : Option Expr)
    {properties : List (String × Expr)} (distinct : (Table.keys properties).Nodup)
    (store : Store) :
    EndsLiteral eval env spread properties store
      ((object eval env spread properties).runOn store) := by
  cases spread with
  | none => exact .of_spreads distinct .nothing
  | some base =>
      rw [object, Eval.base, bind_assoc]
      rcases evaluated : (eval base env).runOn store with ⟨error | value, middle⟩
      · rw [Run.runOn_bind_error evaluated]
        exact .spreadFails rfl evaluated
      · rw [Run.runOn_bind_ok evaluated]
        cases value with
        | object fields => exact .of_spreads distinct (.object evaluated)
        | null | bool | number | string | list | function =>
            refine .spreadRefused rfl evaluated ?_
            intro fields same
            cases same

/-- A literal of a source has the keys that are written there, in the order in which they come
first, with the expressions that come last. Whichever way its evaluation ends, it goes through the
extended object and then these expressions, and the store changes only while it does. The object
that it makes has the places of the extended object and the values of the literal. -/
theorem literals_override_spread :
    (∀ nesting source exprs, Expr.parse nesting source = .ok exprs → ∀ expr ∈ exprs,
      ∀ spread properties, (Expr.object spread properties).IsPartOf expr →
        ∃ written, Tree.HoldsLiteral (Lexeme.scan source) spread written ∧
          properties = Table.ofList written) ∧
    ∀ (spread : Option Expr) (written : List (String × Expr)) (env : Environment)
      (limit levels : Nat) (store : Store),
      let properties := Table.ofList written
      let literal := Expr.object spread properties
      let ran := (within limit (levels + 1) literal env).runOn store
      Table.keys properties = (Table.keys written).eraseDups ∧
      (∀ key, Table.get? key properties = Table.lastWrite? key written) ∧
      EndsLiteral (within limit levels) env spread properties store ran ∧
      (∀ lineage, store.IsWellFormed .all lineage → lineage.Line env.scopes →
        ∀ value, ran.1 = .ok value → value.HasDistinctKeys) ∧
      (env.scope < store.scopes.size → ∀ number < store.scopes.size, ∀ name,
        (number = env.scope → name ∉ literal.written) →
        Table.get? name (ran.2.scope number) = Table.get? name (store.scope number)) := by
  refine ⟨?_, ?_⟩
  · intro nesting source exprs parsed expr member spread properties inside
    exact Expr.exists_literal_of_parse parsed member inside
  · intro spread written env limit levels store properties literal ran
    refine ⟨Table.keys_ofList written, fun key => Table.get?_ofList key written, ?_, ?_, ?_⟩
    · exact endsLiteral_object _ env spread (Table.nodup_keys_ofList written) store
    · intro lineage wellFormed line value returned
      have taskWellFormed : (Task.expr env literal).IsWellFormed .all lineage := ⟨line, trivial⟩
      rcases Task.endsIn_within taskWellFormed limit (levels + 1) wellFormed with
        ⟨later, _, _, results⟩
      exact (results value returned).keys
    · intro known number bound name unwritten
      have frame := isLocal_within limit (levels + 1) literal env store known
      by_cases nearest : number = env.scope
      · rw [nearest]
        exact frame.values name (unwritten nearest)
      · rw [frame.others number bound nearest]

/-- A literal that repeats a key of the object that it extends, and prints a line for each of its
expressions that is evaluated. -/
theorem literals_override_spread_repeated :
    let source := "\x7b... o b (print one) d two b (print three)\x7d"
    let line (word : String) : Expr := .list [.atom (.symbol "print"), .atom (.symbol word)]
    let spread := some (Expr.atom (.symbol "o"))
    let properties := Table.ofList
      [("b", line "one"), ("d", .atom (.symbol "two")), ("b", line "three")]
    let object : Value := .object [("a", .null), ("b", .bool true), ("c", .string "x")]
    let store := Store.initial.define .root "o" object
    let ran := (within 9 9 (.object spread properties) .root).runOn store
    Expr.parse 2 source = .ok [.object spread properties] ∧
      (∃ written, Tree.HoldsLiteral (Lexeme.scan source) spread written ∧
        properties = Table.ofList written) ∧
      ran.1.toOption.map Value.render =
        some "\x7ba: null, b: \"three\", c: \"x\", d: \"two\"\x7d" ∧
      ran.2.printed = #["three"] ∧ EndsLiteral (within 9 8) .root spread properties store ran ∧
      (∀ value, ran.1 = .ok value → value.HasDistinctKeys) ∧
      Table.get? "o" (ran.2.scope 0) = some object := by
  intro source line spread properties object store ran
  have parsed : Expr.parse 2 source = .ok [.object spread properties] := by
    rw [Expr.parse_eq_readAll, Token.scan_eq_ofChars]
    cbv
  have distinct : object.IsWellFormed (Lineage.Knows .all .single) := by
    apply Value.IsWellFormed.object (by decide)
    simp [Value.IsWellFormed.null, Value.IsWellFormed.bool, Value.IsWellFormed.string]
  have wellFormed : store.IsWellFormed .all .single :=
    (Store.isWellFormed_initial .all).define .root "o" distinct
  rcases literals_override_spread with ⟨literals, evaluation⟩
  rcases evaluation spread [("b", line "one"), ("d", .atom (.symbol "two")), ("b", line "three")]
    .root 9 8 store with ⟨_, _, ends, keys, kept⟩
  refine ⟨parsed, ?_, by decide +kernel, by decide +kernel, ends, ?_, ?_⟩
  · exact literals 2 source _ parsed _ List.mem_cons_self _ _ .self
  · exact keys .single wellFormed Lineage.line_single
  · exact kept (by decide) 0 (by decide) "o" (by decide)

end Eval

end RuleLisp
