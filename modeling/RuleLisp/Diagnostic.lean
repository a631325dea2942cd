import RuleLisp.Text.Span

/-! # Diagnostics

What is wrong with a program, said to a person: a message with an optional code, labels that point
at the source, and notes.
-/

namespace RuleLisp

structure Label where
  span : Span
  message : String
deriving DecidableEq, Repr

structure Diagnostic where
  code : Option String
  message : String
  labels : List Label
  notes : List String
deriving DecidableEq, Repr

namespace Diagnostic

def error (message : String) : Diagnostic :=
  ⟨none, message, [], []⟩

def withCode (diagnostic : Diagnostic) (code : String) : Diagnostic :=
  { diagnostic with code := some code }

def withLabel (diagnostic : Diagnostic) (span : Span) (message : String) : Diagnostic :=
  { diagnostic with labels := diagnostic.labels ++ [⟨span, message⟩] }

def withNote (diagnostic : Diagnostic) (note : String) : Diagnostic :=
  { diagnostic with notes := diagnostic.notes ++ [note] }

def withHelp (diagnostic : Diagnostic) (help : String) : Diagnostic :=
  diagnostic.withNote ("help: " ++ help)

end Diagnostic

end RuleLisp
