import RuleLisp.Atom
import RuleLisp.Table

/-! # Expressions

A program is a row of expressions. Besides atoms there are lists, which are calls, object literals
and function definitions.
-/

namespace RuleLisp

inductive Expr where
  | atom (word : Atom)
  /-- A call: the head says what to do with the other items. -/
  | list (items : List Expr)
  /-- An object literal, with the object that it extends and its own properties. A key that is
  written twice keeps its first place and its last expression. -/
  | object (spread : Option Expr) (properties : List (String × Expr))
  | function (name : String) (params : List String) (body : Expr)

namespace Expr

def text? : Expr → Option String
  | .atom word => word.text?
  | _ => none

def symbol? : Expr → Option String
  | .atom word => word.symbol?
  | _ => none

def functionWord : String :=
  "defun"

def spreadWord : String :=
  "..."

/-! ## Comparison -/

mutual

/-- Whether two expressions are the same. Numbers are compared as numbers, and the order of an
object's properties does not matter. -/
protected def beq : Expr → Expr → Bool
  | .atom left, .atom right => left == right
  | .list left, .list right => beqItems left right
  | .object leftSpread left, .object rightSpread right =>
      beqSpread leftSpread rightSpread && left.length == right.length && beqProperties left right
  | .function leftName leftParams left, .function rightName rightParams right =>
      leftName == rightName && leftParams == rightParams && left.beq right
  | _, _ => false

def beqItems : List Expr → List Expr → Bool
  | [], [] => true
  | left :: lefts, right :: rights => left.beq right && beqItems lefts rights
  | _, _ => false

def beqSpread : Option Expr → Option Expr → Bool
  | none, none => true
  | some left, some right => left.beq right
  | _, _ => false

def beqProperties : List (String × Expr) → List (String × Expr) → Bool
  | [], _ => true
  | (key, left) :: rest, rights =>
      (match Table.get? key rights with
        | some right => left.beq right
        | none => false) && beqProperties rest rights

end

instance : BEq Expr :=
  ⟨Expr.beq⟩

end Expr

end RuleLisp
