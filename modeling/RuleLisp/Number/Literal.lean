import RuleLisp.Number.Binary

/-! # Numeric literals

A number is written as an optional minus sign, digits, and optionally a point with more digits.
There is no exponent, no plus sign and no digit outside ASCII.
-/

namespace RuleLisp.Number

def isDigit (char : Char) : Bool :=
  '0' ≤ char && char ≤ '9'

def digitsValue (digits : List Char) : Nat :=
  digits.foldl (fun value digit => value * 10 + (digit.toNat - '0'.toNat)) 0

example : digitsValue "0120".toList = 120 := by decide

structure Literal where
  negative : Bool
  whole : List Char
  fraction : List Char
deriving DecidableEq, Repr

namespace Literal

def isDigits (text : List Char) : Bool :=
  !text.isEmpty && text.all isDigit

def readUnsigned? (negative : Bool) (text : List Char) : Option Literal :=
  let whole := text.takeWhile (· ≠ '.')
  match text.dropWhile (· ≠ '.') with
  | [] => if isDigits whole then some ⟨negative, whole, []⟩ else none
  | _ :: fraction =>
      if isDigits whole && isDigits fraction then some ⟨negative, whole, fraction⟩ else none

def read? : List Char → Option Literal
  | '-' :: text => readUnsigned? true text
  | text => readUnsigned? false text

example : read? "-12.50".toList = some ⟨true, "12".toList, "50".toList⟩ := by decide

example : read? "1.".toList = none ∧ read? ".5".toList = none ∧ read? "--1".toList = none ∧
    read? "1e5".toList = none ∧ read? "1.2.3".toList = none ∧ read? "".toList = none := by decide

def value (literal : Literal) : Float :=
  ofRatio literal.negative (digitsValue (literal.whole ++ literal.fraction))
    (Nat.pow 10 literal.fraction.length)

end Literal

def isNumeric (text : List Char) : Bool :=
  (Literal.read? text).isSome

end RuleLisp.Number
