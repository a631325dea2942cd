import RuleLisp.Eval.Step

/-! # Evaluation with a counter

An evaluator that serves a whole session may keep its depth in a counter instead of handing it down
from level to level. The counter goes up before an expression is evaluated and back down when that
has ended, with a value or with an error.
-/

namespace RuleLisp

/-- A computation on the store and a counter. Like the store, the counter keeps what an error finds
in it. -/
abbrev CountedRun :=
  ExceptT RunError (StateT Nat (StateM Store))

def CountedRun.runAt {α : Type} (run : CountedRun α) (depth : Nat) (store : Store) :
    Except RunError α × Nat × Store :=
  let ran := ((ExceptT.run run).run depth).run store
  (ran.1.1, ran.1.2, ran.2)

namespace Eval.Counted

def deeper {α : Type} (limit : Nat) (run : CountedRun α) : CountedRun α :=
  ExceptT.mk do
    let depth := (← get) + 1
    if limit < depth then return .error (.stackOverflow limit)
    else
      set depth
      let outcome ← ExceptT.run run
      set (depth - 1)
      return outcome

/-- Evaluates an expression. The counter refuses to go past the limit, so as many levels as the
limit says are enough. -/
def within (limit : Nat) : (levels : Nat) → EvaluatorIn CountedRun
  | 0 => fun _ _ => throw (.stackOverflow limit)
  | levels + 1 => fun expr env => deeper limit (step (within limit levels) expr env)

def expr (limit : Nat) : EvaluatorIn CountedRun :=
  within limit limit

def exprs (limit : Nat) (env : Environment) (exprs : List Expr) : CountedRun Value :=
  exprs.foldlM (fun _ next => expr limit next env) .null

def apply (limit : Nat) (callee : Function) (args : List Value) : CountedRun Value :=
  call (expr limit) callee args

end Eval.Counted

end RuleLisp
