import RuleLisp.Diagnostic

/-! # Errors of reading a source -/

namespace RuleLisp

inductive ParseError where
  /-- The source ends inside a bracket. -/
  | unexpectedEnd (expected : Char) (span : Span)
  /-- A closing bracket stands where an expression should. -/
  | unexpectedClosing (bracket : Char) (span : Span)
  /-- A key of an object literal is no text. -/
  | invalidKey (found : String) (span : Span)
  /-- A function definition lacks a part or has one too many. -/
  | invalidDefinition (reason : String) (span : Span)
  | unterminatedString (span : Span)
  /-- Text is left where no token starts. -/
  | unreadable (reason : String) (span : Span)
  | nestingTooDeep (limit : Nat) (span : Span)
deriving DecidableEq, Repr

namespace ParseError

def span : ParseError → Span
  | unexpectedEnd _ span => span
  | unexpectedClosing _ span => span
  | invalidKey _ span => span
  | invalidDefinition _ span => span
  | unterminatedString span => span
  | unreadable _ span => span
  | nestingTooDeep _ span => span

def message : ParseError → String
  | unexpectedEnd expected _ =>
      "unexpected end of input, expected `" ++ expected.toString ++ "`"
  | unexpectedClosing bracket _ => "unexpected closing bracket `" ++ bracket.toString ++ "`"
  | invalidKey found _ => "object key must be a string, found `" ++ found ++ "`"
  | invalidDefinition reason _ => "invalid function definition: " ++ reason
  | unterminatedString _ => "unterminated string literal"
  | unreadable reason _ => reason
  | nestingTooDeep limit _ => "brackets nested more than " ++ Nat.repr limit ++ " deep"

def code : ParseError → String
  | unreadable .. => "E0100"
  | unexpectedEnd .. => "E0101"
  | unexpectedClosing .. => "E0102"
  | invalidKey .. => "E0103"
  | invalidDefinition .. => "E0104"
  | unterminatedString .. => "E0105"
  | nestingTooDeep .. => "E0106"

def labelText : ParseError → String
  | unexpectedEnd expected _ => "expected `" ++ expected.toString ++ "` here"
  | unexpectedClosing .. => "no matching opening bracket"
  | invalidKey .. => "not a valid key"
  | invalidDefinition .. => ""
  | unterminatedString .. => "missing closing `\"`"
  | unreadable .. => ""
  | nestingTooDeep .. => "nesting limit reached here"

def help? : ParseError → Option String
  | unexpectedClosing .. => some "remove the bracket or add the missing opener"
  | invalidKey .. =>
      some "object literals alternate `key value`; keys are bare words or quoted strings"
  | invalidDefinition .. => some "write `(defun (name param ...) body)`"
  | nestingTooDeep .. => some "raise the limit with `--max-depth`"
  | _ => none

def toDiagnostic (error : ParseError) : Diagnostic :=
  let diagnostic :=
    ((Diagnostic.error error.message).withCode error.code).withLabel error.span error.labelText
  match error.help? with
  | some help => diagnostic.withHelp help
  | none => diagnostic

end ParseError

end RuleLisp
