/-! # Binary numbers

Numbers of the language are `Float`s. This module reads a number off its sixty-four bits and finds
the number nearest to a ratio, both in exact arithmetic on `Nat`.

A number without its sign is a *magnitude*: the sixty-three low bits. Every finite magnitude stands
for a whole count of *units*, where a unit is the least positive number, `2 ^ (-1074)`. Magnitudes
are ordered as the numbers they stand for, and the magnitudes from `infinite` on stand for infinity
and for what is not a number.
-/

namespace RuleLisp.Number

/-! ## Magnitudes and units -/

/-- The power of two that a unit divides one into. -/
def unitsPerOne : Nat :=
  Nat.pow 2 1074

/-- The number of magnitudes that share one spacing. -/
def spacingSize : Nat :=
  Nat.pow 2 52

/-- The magnitude of infinity, the least one that is not finite. -/
def infinite : Nat :=
  0x7FF * spacingSize

/-- How often the spacing between neighbours has doubled at a magnitude. It is one unit for the
first two `spacingSize` magnitudes and doubles with every further `spacingSize` of them. -/
def doublings (magnitude : Nat) : Nat :=
  magnitude / spacingSize - 1

/-- The count of spacings that a finite magnitude stands for. -/
def significand (magnitude : Nat) : Nat :=
  if magnitude < spacingSize then magnitude else spacingSize + magnitude % spacingSize

/-- The count of units that a finite magnitude stands for. -/
def units (magnitude : Nat) : Nat :=
  significand magnitude * Nat.pow 2 (doublings magnitude)

/-- The quotient rounded to the nearest whole number. A tie goes to the even neighbour. -/
def roundedQuotient (numerator denominator : Nat) : Nat :=
  let quotient := numerator / denominator
  let twice := 2 * (numerator % denominator)
  if twice < denominator then quotient
  else if denominator < twice then quotient + 1
  else quotient + quotient % 2

example : roundedQuotient 7 2 = 4 ∧ roundedQuotient 5 2 = 2 ∧ roundedQuotient 8 3 = 3 := by decide

/-- The magnitude nearest to the ratio of two whole numbers. Ratios past the largest finite number
by half a spacing or more give infinity. -/
def nearest (numerator denominator : Nat) : Nat :=
  let count := numerator * unitsPerOne
  let spacing := (count / denominator).log2 - 52
  min (spacing * spacingSize + roundedQuotient count (denominator * Nat.pow 2 spacing)) infinite

example : nearest 1 1 = 0x3FF * 2 ^ 52 := by decide +kernel

example : nearest (2 ^ 53 + 1) 1 = nearest (2 ^ 53) 1 := by decide +kernel

example : nearest 1 (10 ^ 400) = 0 ∧ nearest (10 ^ 400) 1 = infinite := by decide +kernel

/-! ## Signed numbers -/

def signBit : Nat :=
  Nat.pow 2 63

/-- The bits of a number below its sign. -/
def magnitude (number : Float) : Nat :=
  number.toBits.toNat % signBit

def isNegative (number : Float) : Bool :=
  signBit ≤ number.toBits.toNat

def isFinite (number : Float) : Bool :=
  magnitude number < infinite

def ofMagnitude (negative : Bool) (magnitude : Nat) : Float :=
  Float.ofBits (UInt64.ofNat (if negative then signBit + magnitude else magnitude))

def ofRatio (negative : Bool) (numerator denominator : Nat) : Float :=
  ofMagnitude negative (nearest numerator denominator)

def ofNat (count : Nat) : Float :=
  ofRatio false count 1

def undefined : Float :=
  Float.ofBits 0x7FF8000000000000

/-! ## Remainders -/

/-- The remainder of a division that rounds toward zero. It is exact and has the sign of the
dividend. An infinite dividend and a zero divisor have no remainder. -/
def remainder (dividend divisor : Float) : Float :=
  let left := magnitude dividend
  let right := magnitude divisor
  if infinite ≤ left ∨ infinite < right ∨ right = 0 then undefined
  else if right = infinite then dividend
  else ofRatio (isNegative dividend) (units left % units right) unitsPerOne

end RuleLisp.Number
