import RuleLisp.Proofs.Eval.Relation

/-! # Calls with one argument

A list with a name and one argument reads a field, calls a function or runs an operation. Which of
these it is may depend on the value of the argument, which is then evaluated before anything else
is known. This module says when that one evaluation is enough.
-/

namespace RuleLisp

/-! ## Operations on one operand -/

def Evaluator.idle : Evaluator :=
  fun _ _ => return .null

namespace Builtin

variable (eval : Evaluator) (env : Environment) (keyword : String) (arg : Expr)

/-- An operation that accepts one operand evaluates it first, and then needs only its value. -/
theorem run_single (builtin : Builtin) :
    builtin.run eval env keyword [⟨arg, none⟩] = throw (.arity keyword builtin.expected 1) ∨
      builtin.run eval env keyword [⟨arg, none⟩] = (do
        let value ← eval arg env
        builtin.run Evaluator.idle env keyword [⟨arg, some value⟩]) := by
  cases builtin with
  | remainder | compare | equal | unequal | choose | assign => exact .inl rfl
  | add | multiply | divide =>
      right
      simp [run, accumulate, Operand.number, Operand.value]
  | subtract | not | firstItem | otherItems | length =>
      right
      simp [run, Operand.number, Operand.value]
  | and =>
      right
      simp [run, all, Operand.value]
  | or =>
      right
      simp [run, any, Operand.value]
  | list | concat | print =>
      right
      simp [run, Operand.values, Operand.value]

theorem run_known (builtin : Builtin) (value : Value) :
    builtin.run eval env keyword [⟨arg, some value⟩] =
      builtin.run Evaluator.idle env keyword [⟨arg, some value⟩] := by
  cases builtin <;> rfl

end Builtin

/-! ## One evaluation -/

namespace Eval

/-- What a call gives and leaves is due to at most one evaluation of its argument and to one use of
the value. A function is the one that the name stands for before or after that evaluation. -/
inductive EvaluatesOnce (eval : Evaluator) (env : Environment) (name : String) (arg : Expr)
    (store : Store) : Except RunError Value × Store → Prop
  | unevaluated (error : RunError) : EvaluatesOnce eval env name arg store (.error error, store)
  | failure (error : RunError) {outcome : Except RunError Value} {after : Store}
      (evaluated : (eval arg env).runOn store = (outcome, after)) :
      EvaluatesOnce eval env name arg store (.error error, after)
  | field {value found : Value} {after : Store}
      (evaluated : (eval arg env).runOn store = (.ok value, after))
      (read : value.field? name = some found) :
      EvaluatesOnce eval env name arg store (.ok found, after)
  | call {value : Value} {after : Store} {callee : Function}
      (evaluated : (eval arg env).runOn store = (.ok value, after))
      (bound : store.lookup? env name = some (.function callee) ∨
        after.lookup? env name = some (.function callee)) :
      EvaluatesOnce eval env name arg store ((Eval.call eval callee [value]).runOn after)
  | builtin {value : Value} {after : Store} {builtin : Builtin}
      (evaluated : (eval arg env).runOn store = (.ok value, after))
      (found : Builtin.ofKeyword? name = some builtin) :
      EvaluatesOnce eval env name arg store
        ((builtin.run Evaluator.idle env name [⟨arg, some value⟩]).runOn after)

variable {eval : Evaluator} {env : Environment} {name : String} {arg : Expr} {store : Store}

theorem EvaluatesOnce.of_bind {next : Value → Run Value}
    (goesOn : ∀ value after, (eval arg env).runOn store = (.ok value, after) →
      EvaluatesOnce eval env name arg store ((next value).runOn after)) :
    EvaluatesOnce eval env name arg store ((eval arg env >>= next).runOn store) := by
  rw [Run.runOn_bind]
  rcases evaluated : (eval arg env).runOn store with ⟨error | value, after⟩
  · exact .failure error evaluated
  · exact goesOn value after evaluated

theorem callWith_single (eval : Evaluator) (env : Environment) (callee : Function) (arg : Expr) :
    callWith eval env callee [arg] = eval arg env >>= fun value => call eval callee [value] := by
  simp [callWith]

theorem runOn_lookup? (env : Environment) (name : String) (store : Store) :
    Run.runOn (Run.lookup? env name) store = (.ok (store.lookup? env name), store) :=
  rfl

theorem runOn_callNamed_function {callee : Function} {args : List Expr} {operands : List Operand}
    (bound : store.lookup? env name = some (.function callee)) :
    (callNamed eval env name args operands).runOn store =
      (callWith eval env callee args).runOn store := by
  rw [callNamed, Run.runOn_bind_ok (runOn_lookup? env name store), bound]

/-- A name that is bound to no function stands for an operation, if for anything. -/
theorem runOn_callNamed_builtin {args : List Expr} {operands : List Operand}
    (unbound : ∀ callee, store.lookup? env name ≠ some (.function callee)) :
    (callNamed eval env name args operands).runOn store =
      (callBuiltin eval env name operands).runOn store := by
  rw [callNamed, Run.runOn_bind_ok (runOn_lookup? env name store)]
  cases found : store.lookup? env name with
  | none => rfl
  | some value =>
      cases value with
      | function callee => exact absurd found (unbound callee)
      | null | bool | number | string | list | object => rfl

theorem runOn_listNamed_single (eval : Evaluator) (env : Environment) (name : String) (arg : Expr)
    (store : Store) :
    (listNamed eval env name [arg]).runOn store =
      if name ≠ negation ∧ ¬store.contains env name then
        (fieldOrCall eval env name arg).runOn store
      else (callNamed eval env name [arg] [⟨arg, none⟩]).runOn store := by
  rw [listNamed, Run.runOn_bind]
  change Run.runOn (if _ then _ else _) store = _
  split <;> rfl

/-- A call whose argument is not looked at first. -/
theorem evaluatesOnce_callNamed (eval : Evaluator) (env : Environment) (name : String) (arg : Expr)
    (store : Store) :
    EvaluatesOnce eval env name arg store
      ((callNamed eval env name [arg] [⟨arg, none⟩]).runOn store) := by
  by_cases bound : ∃ callee, store.lookup? env name = some (.function callee)
  · rcases bound with ⟨callee, bound⟩
    rw [runOn_callNamed_function bound, callWith_single]
    apply EvaluatesOnce.of_bind
    intro value after evaluated
    exact .call evaluated (.inl bound)
  · rw [runOn_callNamed_builtin (not_exists.mp bound), callBuiltin]
    cases found : Builtin.ofKeyword? name with
    | none => exact .unevaluated _
    | some builtin =>
        dsimp only
        rcases builtin.run_single eval env name arg with refused | accepted
        · rw [refused]
          exact .unevaluated _
        · rw [accepted]
          apply EvaluatesOnce.of_bind
          intro value after evaluated
          exact .builtin evaluated found

/-- Evaluating the argument makes a function of the head, which had no value before, and the result
has no field of that name. -/
def DefinesHead (eval : Evaluator) (env : Environment) (name : String) (arg : Expr)
    (store : Store) : Prop :=
  name ≠ negation ∧ ¬store.contains env name ∧
    ∃ value after callee, (eval arg env).runOn store = (.ok value, after) ∧
      value.field? name = none ∧ after.lookup? env name = some (.function callee)

theorem evaluatesOnce_fieldOrCall
    (unchanged : ∀ value after callee, (eval arg env).runOn store = (.ok value, after) →
      value.field? name = none → after.lookup? env name ≠ some (.function callee)) :
    EvaluatesOnce eval env name arg store ((fieldOrCall eval env name arg).runOn store) := by
  apply EvaluatesOnce.of_bind
  intro value after evaluated
  cases read : value.field? name with
  | some found => exact .field evaluated read
  | none =>
      dsimp only
      rw [runOn_callNamed_builtin fun callee => unchanged value after callee evaluated read,
        callBuiltin]
      cases found : Builtin.ofKeyword? name with
      | none => exact .failure _ evaluated
      | some builtin =>
          dsimp only
          rw [builtin.run_known]
          exact .builtin evaluated found

theorem runOn_fieldOrCall_function {value : Value} {after : Store} {callee : Function}
    (evaluated : (eval arg env).runOn store = (.ok value, after))
    (read : value.field? name = none)
    (bound : after.lookup? env name = some (.function callee)) :
    (fieldOrCall eval env name arg).runOn store =
      (eval arg env >>= fun again => call eval callee [again]).runOn after := by
  rw [fieldOrCall, Run.runOn_bind, evaluated]
  dsimp only
  rw [read]
  dsimp only
  rw [runOn_callNamed_function bound, callWith_single]

/-- The argument of a call with one argument is evaluated at most once, unless its evaluation makes
a function of the head. Then it is evaluated again, and the function gets the second value. -/
theorem argument_evaluated_once_unless_defining_head (limit remaining : Nat) (env : Environment)
    {head : Atom} {name : String} (text : head.text? = some name) (arg : Expr) (store : Store) :
    let eval := within limit (remaining - 1)
    let ran := (within limit remaining (.list [.atom head, arg]) env).runOn store
    (remaining = 0 ∨ ¬DefinesHead eval env name arg store →
      EvaluatesOnce eval env name arg store ran) ∧
    (remaining ≠ 0 → name ≠ negation → ¬store.contains env name → ∀ value after callee,
      (eval arg env).runOn store = (.ok value, after) → value.field? name = none →
      after.lookup? env name = some (.function callee) →
      ran = (eval arg env >>= fun again => call eval callee [again]).runOn after) := by
  cases remaining with
  | zero => exact ⟨fun _ => .unevaluated _, fun positive => absurd rfl positive⟩
  | succ remaining =>
      intro eval ran
      have named : ran = (listNamed eval env name [arg]).runOn store := by
        change (list eval env [.atom head, arg]).runOn store = _
        simp only [list, Expr.text?, text]
      rw [named, runOn_listNamed_single]
      refine ⟨?_, ?_⟩
      · intro kept
        have stays := kept.resolve_left (Nat.succ_ne_zero remaining)
        split
        · next first =>
            apply evaluatesOnce_fieldOrCall
            intro value after callee evaluated read bound
            exact stays ⟨first.1, first.2, value, after, callee, evaluated, read, bound⟩
        · exact evaluatesOnce_callNamed eval env name arg store
      · intro _ different unbound value after callee evaluated read bound
        rw [if_pos ⟨different, unbound⟩]
        exact runOn_fieldOrCall_function evaluated read bound

/-- A function whose argument prints a line and gives the function's name to another function. -/
theorem argument_evaluated_once_unless_defining_head_rebound :
    let first : Function := .closure ⟨0, "f", ["x"], .atom (.string "first"), .root⟩
    let second : Function := .closure ⟨1, "g", ["x"], .atom (.string "second"), .root⟩
    let store : Store := ⟨#[[("f", .function first), ("g", .function second)]], 2, #[], #[]⟩
    let print : Expr := .list [.atom (.symbol "print"), .atom (.string "once")]
    let set : Expr := .list [.atom (.symbol "set"), .atom (.symbol "f"), .atom (.symbol "g")]
    let arg : Expr := .list [.atom (.symbol "list"), print, set]
    let ran := (within 4 4 (.list [.atom (.symbol "f"), arg]) .root).runOn store
    (Atom.symbol "f").text? = some "f" ∧ ran.2.printed = #["once"] ∧
      EvaluatesOnce (within 4 3) .root "f" arg store ran := by
  intro first second store print set arg ran
  have kept : ¬DefinesHead (within 4 3) .root "f" arg store := by
    intro defines
    exact absurd defines.2.1 (by decide)
  refine ⟨rfl, by decide, ?_⟩
  exact (argument_evaluated_once_unless_defining_head 4 4 .root rfl arg store).1 (.inr kept)

/-- The head has no value before its argument gives it that of a function. -/
theorem not_evaluatesOnce_defining_head :
    let callee : Function := .closure ⟨0, "g", ["x"], .atom (.symbol "x"), .root⟩
    let store : Store := ⟨#[[("g", .function callee)]], 1, #[], #[]⟩
    let print : Expr := .list [.atom (.symbol "print"), .atom (.string "hi")]
    let set : Expr := .list [.atom (.symbol "set"), .atom (.symbol "f"), .atom (.symbol "g")]
    let arg : Expr := .list [.atom (.symbol "list"), print, set]
    let ran := (within 4 4 (.list [.atom (.symbol "f"), arg]) .root).runOn store
    ran.2.printed = #["hi", "hi"] ∧ ¬EvaluatesOnce (within 4 3) .root "f" arg store ran := by
  intro callee store print set arg ran
  have twice : ran.2.printed = #["hi", "hi"] := by decide
  have single : ((within 4 3 arg .root).runOn store).2.printed = #["hi"] := by decide
  refine ⟨twice, ?_⟩
  intro once
  generalize ran = result at once twice
  cases once with
  | unevaluated error => cases twice
  | failure error evaluated =>
      rw [evaluated] at single
      cases single.symm.trans twice
  | field evaluated read =>
      rw [evaluated] at single
      cases single.symm.trans twice
  | call evaluated bound =>
      cases evaluated
      rcases bound with bound | bound
      · cases bound
      · cases bound
        revert twice
        decide
  | builtin evaluated found => cases found

end Eval

end RuleLisp
