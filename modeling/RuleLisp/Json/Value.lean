import RuleLisp.Json.Number
import RuleLisp.Value

/-! # JSON texts as values -/

namespace RuleLisp.Json

mutual

/-- The value of a tree, given how numerals become numbers, or none if a numeral has no number.
A key that is repeated keeps its first place and takes its last value. -/
def valueWith? (number? : Numeral → Option Float) : Json → Option Value
  | .null => some .null
  | .bool value => some (.bool value)
  | .number numeral => (number? numeral).map .number
  | .string text => some (.string text)
  | .array items => (valuesWith? number? items).map .list
  | .object members => (fieldsWith? number? members).map fun fields => .object (Table.ofList fields)

def valuesWith? (number? : Numeral → Option Float) : List Json → Option (List Value)
  | [] => some []
  | item :: rest => do
      let value ← valueWith? number? item
      let values ← valuesWith? number? rest
      some (value :: values)

def fieldsWith? (number? : Numeral → Option Float) :
    List (String × Json) → Option (List (String × Value))
  | [] => some []
  | (key, item) :: rest => do
      let value ← valueWith? number? item
      let fields ← fieldsWith? number? rest
      some ((key, value) :: fields)

end

def value? (json : Json) : Option Value :=
  json.valueWith? Numeral.number?

def read? (text : String) : Option Value := do
  (← parse? text).value?

end RuleLisp.Json
