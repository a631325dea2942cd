import RuleLisp.Eval.Step
import RuleLisp.Expr.Reader

/-! # Programs

Running source text: it is read first and evaluated then, so a program that cannot be read changes
nothing.
-/

namespace RuleLisp

inductive Failure where
  | parse (error : ParseError)
  | run (error : RunError)

namespace Failure

def message : Failure → String
  | parse error => "parse error: " ++ error.message
  | run error => "runtime error: " ++ error.message

def toDiagnostic : Failure → Diagnostic
  | parse error => error.toDiagnostic
  | run error => error.toDiagnostic

end Failure

namespace Program

/-- Runs a source in an environment. The limit bounds both the nesting of brackets and the depth of
evaluation. -/
def run (limit : Nat) (env : Environment) (source : String) :
    StateM Store (Except Failure Value) := do
  match Expr.parse limit source with
  | .error error => return .error (.parse error)
  | .ok exprs =>
      match ← (Eval.exprs limit env exprs).run with
      | .error error => return .error (.run error)
      | .ok value => return .ok value

end Program

end RuleLisp
