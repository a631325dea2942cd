import RuleLisp.Expr

/-! # Expressions as text

The source text of an expression, with single spaces between its parts. Reading that text gives
the expression back, except that an infinite number has no literal and that a key which holds a
quotation mark has no word.
-/

namespace RuleLisp.Expr

/-- Characters that end a word or change its meaning. -/
def isSpecial (char : Char) : Bool :=
  Text.isBlank char || char = '(' || char = ')' || char = '\x7b' || char = '\x7d' || char = '"'

/-- Words that are no key when they stand bare. -/
def reservedWords : List String :=
  ["true", "false", "null", spreadWord]

def isPlainKey (key : String) : Bool :=
  !key.isEmpty && !reservedWords.contains key && !Number.isNumeric key.toList &&
    !key.toList.any isSpecial

def renderKey (key : String) : String :=
  if isPlainKey key then key else "\"" ++ key ++ "\""

mutual

def render : Expr → String
  | .atom word => word.render
  | .list items => "(" ++ " ".intercalate (renderItems items) ++ ")"
  | .object spread properties =>
      "\x7b" ++ " ".intercalate (renderSpread spread ++ renderProperties properties) ++ "\x7d"
  | .function name params body =>
      "(defun (" ++ " ".intercalate (name :: params) ++ ") " ++ body.render ++ ")"

def renderItems : List Expr → List String
  | [] => []
  | item :: rest => item.render :: renderItems rest

def renderSpread : Option Expr → List String
  | none => []
  | some spread => ["... " ++ spread.render]

def renderProperties : List (String × Expr) → List String
  | [] => []
  | (key, value) :: rest => (renderKey key ++ " " ++ value.render) :: renderProperties rest

end

end RuleLisp.Expr
