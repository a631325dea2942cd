import RuleLisp.Diagnostic

/-! # Errors of running a program -/

namespace RuleLisp

inductive RunError where
  /-- The head of a call names neither a function nor a field. -/
  | unknownFunction (name : String)
  /-- A name that stands for an input has no value. -/
  | unknownInput (name : String)
  | arity (name : String) (expected : String) (got : Nat)
  | wrongType (reason : String)
  | divisionByZero
  | stackOverflow (limit : Nat)
  /-- A host function refused its arguments. -/
  | invalidOperation (reason : String)
deriving DecidableEq, Repr

namespace RunError

def invalidSpread (found : String) : RunError :=
  wrongType ("spread value must be an object, found " ++ found)

def message : RunError → String
  | unknownFunction name => "unknown function or property: " ++ name
  | unknownInput name => "unknown input: " ++ name
  | arity name expected got =>
      "`" ++ name ++ "` expects " ++ expected ++ " argument(s), got " ++ Nat.repr got
  | wrongType reason => "type error: " ++ reason
  | divisionByZero => "division by zero"
  | stackOverflow limit => "maximum evaluation depth of " ++ Nat.repr limit ++ " exceeded"
  | invalidOperation reason => "invalid operation: " ++ reason

def code : RunError → String
  | unknownFunction .. => "E0201"
  | unknownInput .. => "E0202"
  | arity .. => "E0203"
  | wrongType .. => "E0204"
  | divisionByZero => "E0205"
  | stackOverflow .. => "E0206"
  | invalidOperation .. => "E0207"

/-- The report of an error. No place in the source is known for it. -/
def toDiagnostic (error : RunError) : Diagnostic :=
  let diagnostic := (Diagnostic.error error.message).withCode error.code
  match error with
  | unknownInput name =>
      diagnostic.withNote
        ("inputs are supplied by the caller; `" ++ name ++ "` was not provided")
  | stackOverflow _ =>
      diagnostic.withHelp "check for a function that calls itself without a base case"
  | _ => diagnostic

end RunError

end RuleLisp
