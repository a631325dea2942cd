import RuleLisp.Json.Value
import RuleLisp.Store

/-! # Inputs

The inputs of a program are the members of one JSON object.
-/

namespace RuleLisp

inductive InputError where
  | invalidJson
  /-- The text is JSON of another kind. -/
  | notAnObject (kind : String)
deriving DecidableEq, Repr

def InputError.message : InputError → String
  | invalidJson => "invalid JSON input: the text is not JSON"
  | notAnObject kind => "inputs must be a JSON object, found " ++ kind

namespace Inputs

def read (text : String) : Except InputError (Table Value) :=
  match Json.parse? text with
  | none => .error .invalidJson
  | some json =>
      match json.value? with
      | none => .error .invalidJson
      | some (.object fields) => .ok fields
      | some _ => .error (.notAnObject json.kindName)

def bindAll (store : Store) (env : Environment) (inputs : Table Value) : Store :=
  inputs.foldl (fun store input => store.bindInput env input.1 input.2) store

/-- Writes the inputs that a text holds, and gives their number. Nothing is written if the text
holds none. -/
def bindText (env : Environment) (text : String) : StateM Store (Except InputError Nat) := do
  match read text with
  | .error error => return .error error
  | .ok inputs =>
      modify (bindAll · env inputs)
      return .ok inputs.length

end Inputs

end RuleLisp
