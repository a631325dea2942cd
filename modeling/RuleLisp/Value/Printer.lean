import RuleLisp.Value

/-! # Values as text

The text that is printed for a value. A string is printed bare, but stands in quotation marks
inside lists and objects. Nothing is escaped, so the text is for people and not for reading back.
-/

namespace RuleLisp.Value

def functionText (callee : Function) : String :=
  "<function " ++ callee.name ++ ">"

mutual

/-- The text of a value, either on its own or inside another value. -/
def renderAt (nested : Bool) : Value → String
  | .null => "null"
  | .bool true => "true"
  | .bool false => "false"
  | .number value => Number.text value
  | .string text => if nested then "\"" ++ text ++ "\"" else text
  | .list items => "(" ++ " ".intercalate (renderItems items) ++ ")"
  | .object fields => "\x7b" ++ ", ".intercalate (renderFields fields) ++ "\x7d"
  | .function callee => functionText callee

def renderItems : List Value → List String
  | [] => []
  | item :: rest => item.renderAt true :: renderItems rest

def renderFields : List (String × Value) → List String
  | [] => []
  | (key, value) :: rest => (key ++ ": " ++ value.renderAt true) :: renderFields rest

end

def render (value : Value) : String :=
  value.renderAt false

end RuleLisp.Value
