import RuleLisp.Expr
import RuleLisp.RunError

/-! # Values

What expressions evaluate to. Functions are values too: a function that the program defined keeps
its body and the scopes it was defined in, and a function of the host is known by its number. Both
carry an identity, because two functions are equal only if they are the same one.
-/

namespace RuleLisp

/-- The scopes that a name is looked up in: the one that is written to, then the scopes around it,
the nearest first. Scopes are known by their numbers. -/
structure Environment where
  scope : Nat
  outer : List Nat
deriving DecidableEq, Repr

namespace Environment

def scopes (env : Environment) : List Nat :=
  env.scope :: env.outer

def depth (env : Environment) : Nat :=
  env.scopes.length

def nest (env : Environment) (scope : Nat) : Environment :=
  ⟨scope, env.scopes⟩

end Environment

structure Closure where
  identity : Nat
  name : String
  params : List String
  body : Expr
  env : Environment

inductive Function where
  | closure (definition : Closure)
  | host (identity : Nat) (name : String)

namespace Function

def name : Function → String
  | .closure definition => definition.name
  | .host _ name => name

def same : Function → Function → Bool
  | .closure left, .closure right => left.identity == right.identity
  | .host left _, .host right _ => left == right
  | _, _ => false

end Function

/-- The result of evaluating an expression. The keys of an object are distinct. -/
inductive Value where
  | null
  | bool (value : Bool)
  | number (value : Float)
  | string (text : String)
  | list (items : List Value)
  | object (fields : List (String × Value))
  | function (callee : Function)

instance : Inhabited Value :=
  ⟨.null⟩

/-- The value that an atom stands for where it is not looked up as a name. -/
def Atom.value : Atom → Value
  | null => .null
  | bool value => .bool value
  | number value => .number value
  | string text => .string text
  | symbol name => .string name

namespace Value

def typeName : Value → String
  | null => "null"
  | bool _ => "boolean"
  | number _ => "number"
  | string _ => "string"
  | list _ => "list"
  | object _ => "object"
  | function _ => "function"

/-- Only null and false count as false. -/
def isTruthy : Value → Bool
  | null => false
  | bool value => value
  | _ => true

def field? (key : String) : Value → Option Value
  | object fields => Table.get? key fields
  | _ => none

/-- The value as a number. A text counts if it is a numeric literal with blanks around it. -/
def toNumber : Value → Except RunError Float
  | number value => .ok value
  | string text =>
      match Number.Literal.read? (Text.trimChars text.toList) with
      | some literal => .ok literal.value
      | none => .error (.wrongType ("cannot convert \"" ++ text ++ "\" to a number"))
  | other => .error (.wrongType ("expected a number, found " ++ other.typeName))

/-! ## Equality -/

mutual

/-- Whether two values are equal. Objects are equal if they have the same keys with equal values in
any order, functions if they are the same one, and nothing is equal to what is not a number. -/
protected def beq : Value → Value → Bool
  | .null, .null => true
  | .bool left, .bool right => left == right
  | .number left, .number right => left == right
  | .string left, .string right => left == right
  | .list left, .list right => beqItems left right
  | .object left, .object right => left.length == right.length && beqFields left right
  | .function left, .function right => left.same right
  | _, _ => false

def beqItems : List Value → List Value → Bool
  | [], [] => true
  | left :: lefts, right :: rights => left.beq right && beqItems lefts rights
  | _, _ => false

def beqFields : List (String × Value) → List (String × Value) → Bool
  | [], _ => true
  | (key, left) :: rest, rights =>
      (match Table.get? key rights with
        | some right => left.beq right
        | none => false) && beqFields rest rights

end

instance : BEq Value :=
  ⟨Value.beq⟩

end Value

end RuleLisp
