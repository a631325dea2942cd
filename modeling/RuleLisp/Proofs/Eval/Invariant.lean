import RuleLisp.Proofs.Eval.Relation

/-! # What one level of evaluation keeps

Evaluation touches the store in a few ways only. A property of stores that survives each of them,
and survives the evaluation of the expressions inside an expression, survives its evaluation too.
-/

namespace RuleLisp

namespace Eval

variable (eval : Evaluator) (args : List Value) (store : Store)

theorem runOn_call_host (number : Nat) (name : String) :
    (call eval (.host number name) args).runOn store = (store.host number args, store) := by
  change Run.runOn (Run.ofExcept (store.host number args)) store = _
  cases store.host number args <;> rfl

theorem runOn_call_closure (definition : Closure) :
    (call eval (.closure definition) args).runOn store =
      (eval definition.body (definition.env.nest store.scopes.size)).runOn
        (store.nest definition.env (Table.ofList (parameters definition.params args))).2 :=
  rfl

end Eval

namespace Evaluator

/-- A property that survives what a rule of evaluation may do to the store in an environment. -/
structure Keeps (eval : Evaluator) (env : Environment) (writes : String → Prop)
    (holds : Store → Prop) : Prop where
  define : ∀ {name value store}, writes name → holds store → holds (store.define env name value)
  defineClosure : ∀ {name params body store}, writes name → holds store →
    holds (store.defineClosure env name params body)
  print : ∀ {line store}, holds store → holds (store.print line)
  call : ∀ {callee args store}, holds store → holds ((Eval.call eval callee args).runOn store).2
  eval : ∀ {expr store}, (∀ name ∈ expr.written, writes name) → holds store →
    holds ((eval expr env).runOn store).2

namespace Keeps

variable {eval : Evaluator} {env : Environment} {writes : String → Prop} {holds : Store → Prop}
  (keeps : eval.Keeps env writes holds)

include keeps

/-- Both sides are the same run, which has kept the property so far. -/
theorem sideBySide :
    SideBySide (.ofStores fun store twin => store = twin ∧ holds store) .identity
      (fun store twin => store = twin ∧ holds store) (fun _ => True) writes eval eval env env where
  get := RunRelation.ofStores_get _
  lookup? := by
    intro store twin name same _
    rw [same.1]
    exact Value.Like.refl_option _
  define := by
    intro name value twin written values
    rw [values.eq_of_identity]
    apply RunRelation.ofStores_modify
    intro store other same
    rw [← same.1]
    exact ⟨rfl, keeps.define written same.2⟩
  defineClosure := by
    intro name params body written _
    apply RunRelation.ofStores_modify
    intro store other same
    rw [← same.1]
    exact ⟨rfl, keeps.defineClosure written same.2⟩
  print := by
    intro line
    apply RunRelation.ofStores_modify
    intro store other same
    rw [← same.1]
    exact ⟨rfl, keeps.print same.2⟩
  call := by
    intro callee twin args others same alike store other stores
    rw [show callee = twin from same, Value.eq_of_forall₂_identity alike, ← stores.1]
    exact ⟨.refl .refl _, rfl, keeps.call stores.2⟩
  eval := by
    intro expr confined store other stores
    rw [← stores.1]
    exact ⟨.refl .refl _, rfl, keeps.eval confined.writes stores.2⟩

theorem step {expr : Expr} (written : ∀ name ∈ expr.written, writes name) {store : Store}
    (start : holds store) : holds ((Eval.step eval expr env).runOn store).2 := by
  have confined : expr.Confined (fun _ => True) writes := ⟨fun _ _ => trivial, written⟩
  exact (keeps.sideBySide.step confined store store ⟨rfl, start⟩).2.2

end Keeps

end Evaluator

end RuleLisp
