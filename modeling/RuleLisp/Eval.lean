import RuleLisp.Store

/-! # Running

A run changes the store and ends with a result or an error. What it has done to the store by the
time of an error stays done.
-/

namespace RuleLisp

abbrev Run :=
  ExceptT RunError (StateM Store)

/-- A way to evaluate an expression in an environment. The rules of evaluation ask no more of a
computation than that it has a store and may fail. -/
abbrev EvaluatorIn (m : Type → Type) :=
  Expr → Environment → m Value

abbrev Evaluator :=
  EvaluatorIn Run

namespace Run

variable {m : Type → Type} [Monad m]

def ofExcept [MonadExceptOf RunError m] {α : Type} : Except RunError α → m α
  | .ok value => pure value
  | .error error => throw error

def lookup? [MonadStateOf Store m] (env : Environment) (name : String) : m (Option Value) := do
  return (← get).lookup? env name

end Run

end RuleLisp
