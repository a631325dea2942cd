import RuleLisp.Command.Options
import RuleLisp.Diagnostic.Printer
import RuleLisp.Program
import RuleLisp.Value.JsonText

/-! # Interactive sessions

Each line is a program of its own in one lasting scope. A line that fails does not end the session.
-/

namespace RuleLisp.Command

/-! ## Text from outside -/

inductive FileFault where
  | missing
  | isFolder
  | notFolder
  | nameTooLong
  | notText
  | other (text : String)
deriving DecidableEq, Repr

def FileFault.message : FileFault → String
  | missing => "No such file or directory (os error 2)"
  | isFolder => "Is a directory (os error 21)"
  | notFolder => "Not a directory (os error 20)"
  | nameTooLong => "File name too long (os error 36)"
  | notText => "stream did not contain valid UTF-8"
  | other text => text

def decode (bytes : ByteArray) : Except FileFault String :=
  match String.fromUTF8? bytes with
  | some text => .ok text
  | none => .error .notText

/-! ## Sessions -/

structure Written where
  out : String := ""
  err : String := ""
deriving DecidableEq, Repr

/-- The message of an error that has no diagnostic, on a line of its own. -/
def errorLine (color : Bool) (message : String) : String :=
  Diagnostic.paint color .boldRed message ++ "\n"

/-- The lines that were printed since there were `before` of them. -/
def printedSince (store : Store) (before : Nat) : String :=
  String.join ((store.printed.toList.drop before).map (· ++ "\n"))

structure Console where
  limit : Nat
  color : Bool
  store : Store

namespace Console

def prompt : String :=
  "> "

def origin : String :=
  "<repl>"

def endWords : List String :=
  ["exit", "quit"]

def run (console : Console) (line : String) : Written × Console :=
  let before := console.store.printed.size
  let (outcome, store) := (Program.run console.limit .root line).run console.store
  let printed := printedSince store before
  let written : Written :=
    match outcome with
    | .ok value => ⟨printed ++ value.shown ++ "\n", ""⟩
    | .error failure =>
        ⟨printed, Diagnostic.renderAll console.color line origin [failure.toDiagnostic]⟩
  (written, { console with store })

/-- Takes one line. There is no session left if it ends the session or is no text. -/
def turn (console : Console) (line : Except FileFault String) : Written × Option Console :=
  match line with
  | .error fault => (⟨"", errorLine console.color ("Error reading input: " ++ fault.message)⟩, none)
  | .ok line =>
      let line := Text.trim line
      if line.isEmpty then ({}, some console)
      else if line ∈ endWords then ({}, none)
      else
        let (written, console) := console.run line
        (written, some console)

end Console

end RuleLisp.Command
