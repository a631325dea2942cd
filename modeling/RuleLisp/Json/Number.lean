import RuleLisp.Json
import RuleLisp.Number.Binary

/-! # Numerals as numbers

The number of a JSON numeral is computed from its leading digits, as many as fit a word of
sixty-four bits, and a power of ten. The digits are rounded to a number first and then scaled, so
the result may differ from the nearest number in its last place.
-/

namespace RuleLisp.Json.Numeral

structure Scaled where
  digits : Nat
  power : Int
deriving DecidableEq, Repr

namespace Scaled

def maxDigits : Nat :=
  Nat.pow 2 64 - 1

def appended (digits : Nat) (char : Char) : Nat :=
  digits * 10 + (char.toNat - '0'.toNat)

/-- Takes up the digits before the point. From the first one that does not fit on, each digit only
raises the power. -/
def takeWhole (digits : Nat) : List Char → Scaled
  | [] => ⟨digits, 0⟩
  | char :: rest =>
      if appended digits char ≤ maxDigits then takeWhole (appended digits char) rest
      else ⟨digits, rest.length + 1⟩

/-- Takes up the digits after the point. From the first one that does not fit on, they are left
out. -/
def takeFraction (scaled : Scaled) : List Char → Scaled
  | [] => scaled
  | char :: rest =>
      if appended scaled.digits char ≤ maxDigits then
        takeFraction ⟨appended scaled.digits char, scaled.power - 1⟩ rest
      else scaled

end Scaled

def scaled (numeral : Numeral) : Scaled :=
  let scaled := (Scaled.takeWhole 0 numeral.whole).takeFraction numeral.fraction
  { scaled with power := scaled.power + numeral.exponent }

def maxPower : Nat :=
  308

def powerOfTen (power : Nat) : Float :=
  Number.ofNat (Nat.pow 10 power)

/-- Divides by a power of ten, in several steps if the power is no number. -/
def scaleDown (number : Float) (power : Nat) : Float :=
  if power ≤ maxPower then number / powerOfTen power
  else if number == 0 then number
  else scaleDown (number / powerOfTen maxPower) (power - maxPower)
termination_by power
decreasing_by simp only [maxPower] at *; omega

/-- Multiplies by a power of ten. A result that is not finite is refused. -/
def scaleUp? (number : Float) (power : Nat) : Option Float :=
  if power ≤ maxPower then
    let product := number * powerOfTen power
    if Number.isFinite product then some product else none
  else if number == 0 then some number
  else none

def number? (numeral : Numeral) : Option Float :=
  let scaled := numeral.scaled
  let number := Number.ofNat scaled.digits
  let magnitude :=
    match scaled.power with
    | .ofNat power => scaleUp? number power
    | .negSucc power => some (scaleDown number (power + 1))
  magnitude.map fun number => if numeral.negative then -number else number

end RuleLisp.Json.Numeral
