import RuleLisp.Diagnostic
import RuleLisp.Text.Position

/-! # Diagnostics as text

The layout in which a diagnostic is shown: a header, the line of each label with carets under the
marked text, and the notes.

```text
error[E0101]: unexpected end of input, expected `)`
 --> <source>:1:7
  |
1 | (+ 1 2
  |       ^ expected `)` here
  |
```
-/

namespace RuleLisp.Diagnostic

/-! ## Colour -/

inductive Ink where
  | bold
  | red
  | boldRed
  | boldBlue
deriving DecidableEq, Repr

def control (mode : Nat) : String :=
  "\x1b[" ++ Nat.repr mode ++ "m"

/-- The modes that are switched on before a text and off after it. -/
def Ink.modes : Ink → List Nat × List Nat
  | bold => ([1], [0])
  | red => ([31], [39])
  | boldRed => ([1, 31], [39, 0])
  | boldBlue => ([1, 34], [39, 0])

def paint (color : Bool) (ink : Ink) (text : String) : String :=
  if color then
    String.join (ink.modes.1.map control) ++ text ++ String.join (ink.modes.2.map control)
  else text

/-! ## Layout -/

def row (count : Nat) (char : Char) : String :=
  String.ofList (List.replicate count char)

def padded (width : Nat) (text : String) : String :=
  row (width - text.length) ' ' ++ text

def header (color : Bool) (diagnostic : Diagnostic) : String :=
  let code :=
    match diagnostic.code with
    | some code => "[" ++ code ++ "]"
    | none => ""
  paint color .boldRed "error" ++ code ++ ": " ++ paint color .bold diagnostic.message ++ "\n"

/-- The number of carets under a label. There is at least one, and they stop at the end of the
line. -/
def caretCount (span : Span) (remaining : Nat) : Nat :=
  min (max span.length 1) (max remaining 1)

def marker (label : Label) (column lineLength : Nat) : String :=
  let carets := row (caretCount label.span (lineLength - (column - 1))) '^'
  let message := if label.message.isEmpty then "" else " " ++ label.message
  row (column - 1) ' ' ++ carets ++ message

def labelLines (color : Bool) (source : List Char) (width : Nat) (label : Label) : String :=
  let position := Position.ofOffset source label.span.start
  match lineText (position.line - 1) source with
  | none => ""
  | some line =>
      let bar := " " ++ paint color .boldBlue "|" ++ " "
      padded width (Nat.repr position.line) ++ bar ++ String.ofList line ++ "\n" ++
        row width ' ' ++ bar ++ paint color .red (marker label position.column line.length) ++ "\n"

def labelBlock (color : Bool) (source : List Char) (origin : String) : List Label → String
  | [] => ""
  | first :: rest =>
      let position := Position.ofOffset source first.span.start
      let width := (Nat.repr position.line).length
      let rule := row (width + 1) ' ' ++ paint color .boldBlue "|" ++ "\n"
      row width ' ' ++ paint color .boldBlue "-->" ++ " " ++ origin ++ ":" ++
        Nat.repr position.line ++ ":" ++ Nat.repr position.column ++ "\n" ++ rule ++
        String.join ((first :: rest).map (labelLines color source width)) ++ rule

def noteLine (color : Bool) (note : String) : String :=
  " " ++ paint color .boldBlue "=" ++ " " ++ note ++ "\n"

def render (color : Bool) (source : List Char) (origin : String) (diagnostic : Diagnostic) :
    String :=
  diagnostic.header color ++ labelBlock color source origin diagnostic.labels ++
    String.join (diagnostic.notes.map (noteLine color))

def summary (count : Nat) : String :=
  if count = 0 then ""
  else
    "error: aborting due to " ++ Nat.repr count ++ (if count = 1 then " error\n" else " errors\n")

def renderAll (color : Bool) (source origin : String) (diagnostics : List Diagnostic) : String :=
  String.join (diagnostics.map fun diagnostic =>
    diagnostic.render color source.toList origin ++ "\n") ++ summary diagnostics.length

end RuleLisp.Diagnostic
