import RuleLisp.Number.Binary

/-! # Decimal texts

A number is shown by the fewest decimal digits that read back as the same number, always written
out in place and never with an exponent.

A finite number is a decimal with a known number of places, so it is handled as a whole count of
*grains*, where a grain is one in the last of these places.
-/

namespace RuleLisp.Number

/-! ## Shortest decimals -/

/-- Decimal places that hold the number of a finite magnitude exactly. -/
def places (magnitude : Nat) : Nat :=
  1074 - doublings magnitude

/-- The number of a finite magnitude in grains. One of the two powers is one. -/
def grains (magnitude : Nat) : Nat :=
  significand magnitude * Nat.pow 5 (places magnitude) * Nat.pow 2 (doublings magnitude - 1074)

def readsAs (magnitude decimal : Nat) : Bool :=
  nearest decimal (Nat.pow 10 (places magnitude)) = magnitude

/-- Of the multiples of `step` next to a number, the one that reads back as that number. Of two
such multiples the nearer is taken, and of two equally near ones the larger. -/
def neighbour? (magnitude step : Nat) : Option Nat :=
  let exact := grains magnitude
  let below := exact / step * step
  let above := below + step
  if readsAs magnitude below && (exact - below < above - exact || !readsAs magnitude above) then
    some below
  else if readsAs magnitude above then some above
  else none

/-- Tries the steps `10 ^ (digits - 1)`, …, `10`, `1` in turn. -/
def shortestFrom (magnitude : Nat) : (digits : Nat) → Nat
  | 0 => grains magnitude
  | digits + 1 => (neighbour? magnitude (Nat.pow 10 digits)).getD (shortestFrom magnitude digits)

def digitCountFrom (number : Nat) : (fuel digits : Nat) → Nat
  | 0, digits => digits
  | fuel + 1, digits =>
      if number < Nat.pow 10 digits then digits else digitCountFrom number fuel (digits + 1)

/-- The number of decimal digits of a whole number. Three decimal digits take less than ten binary
ones, so the count starts from there. -/
def digitCount (number : Nat) : Nat :=
  digitCountFrom number (number.log2 + 1) (number.log2 * 3 / 10)

example : digitCount 9 = 1 ∧ digitCount 10 = 2 ∧ digitCount (10 ^ 40) = 41 := by decide

/-- The decimal with the fewest digits that reads back as a finite magnitude, in grains. -/
def shortest (magnitude : Nat) : Nat :=
  shortestFrom magnitude (digitCount (grains magnitude))

/-! ## Texts -/

/-- The digits after the point, without final zeros, of a fraction with the given places. -/
def fractionDigits (places fraction : Nat) : List Char :=
  let digits := Nat.toDigits 10 fraction
  let padded := List.replicate (places - digits.length) '0' ++ digits
  (padded.reverse.dropWhile (· = '0')).reverse

def decimalText (places decimal : Nat) : String :=
  let whole := Nat.repr (decimal / Nat.pow 10 places)
  let fraction := decimal % Nat.pow 10 places
  if fraction = 0 then whole
  else whole ++ "." ++ String.ofList (fractionDigits places fraction)

example : decimalText 3 12050 = "12.05" ∧ decimalText 3 12000 = "12" := by decide

def signText (number : Float) : String :=
  if isNegative number then "-" else ""

/-- The text of a number. Zero keeps its sign. -/
def text (number : Float) : String :=
  let magnitude := magnitude number
  if isFinite number then signText number ++ decimalText (places magnitude) (shortest magnitude)
  else if magnitude = infinite then signText number ++ "inf"
  else "NaN"

/-! ## JSON texts -/

/-- Whole numbers below this magnitude are written without a search for the shortest text. -/
def wholeBound : Nat :=
  nearest 9000000000000000 1

def isWhole (magnitude : Nat) : Bool :=
  units magnitude % unitsPerOne = 0

def jsonText (number : Float) : String :=
  let magnitude := magnitude number
  if !isFinite number then "null"
  else if isWhole magnitude && magnitude < wholeBound then
    signText number ++ Nat.repr (units magnitude / unitsPerOne)
  else text number

end RuleLisp.Number
