import Mathlib
import RuleLisp.Number.Binary

/-! # Numbers and their bits

A number is determined by its sign and its magnitude, and every magnitude up to infinity is the
magnitude of a number of either sign. The lemmas about `Float` that this rests on come only with the
whole of Mathlib.
-/

namespace RuleLisp.Number

open Float.Model UnpackedFloat

theorem toBits_ofBits {bits : UInt64} (valid : Format.binary64.Valid bits.toBitVec) :
    (Float.ofBits bits).toBits = bits :=
  UInt64.toBitVec_inj.mp (pack_unpack_of_valid valid)

theorem toNat_unpackMantissa (bits : BitVec Format.binary64.numBits) :
    (unpackMantissa bits).toNat = bits.toNat % 2 ^ 52 := by
  simp [unpackMantissa]

theorem toNat_unpackExponent (bits : BitVec Format.binary64.numBits) :
    (unpackExponent bits).toNat = bits.toNat / 2 ^ 52 % 2 ^ 11 := by
  simp [unpackExponent, Nat.shiftRight_eq_div_pow]

/-- Bits whose magnitude is infinity or less are the bits of a number. -/
theorem valid_of_magnitude_le {bits : BitVec Format.binary64.numBits}
    (bound : bits.toNat % signBit ≤ infinite) : Format.binary64.Valid bits := by
  refine ⟨fun isOnes notZero => ?_⟩
  have exponent := congrArg BitVec.toNat isOnes
  rw [toNat_unpackExponent] at exponent
  change _ = 2047 at exponent
  have mantissa : bits.toNat % 2 ^ 52 ≠ 0 := by
    rw [← toNat_unpackMantissa]
    exact fun isZero => notZero (BitVec.eq_of_toNat_eq isZero)
  change bits.toNat % 2 ^ 63 ≤ 2047 * 2 ^ 52 at bound
  omega

theorem ofMagnitude_magnitude (number : Float) :
    ofMagnitude (isNegative number) (magnitude number) = number := by
  have bound := number.toBits.toNat_lt
  have restored : (if isNegative number then signBit + magnitude number else magnitude number) =
      number.toBits.toNat := by
    simp only [isNegative, magnitude, decide_eq_true_eq]
    change (if 2 ^ 63 ≤ _ then 2 ^ 63 + _ % 2 ^ 63 else _ % 2 ^ 63) = _
    split <;> omega
  rw [ofMagnitude, restored, UInt64.ofNat_toNat, Float.ofBits_toBits]

/-- The bits of a number with a given sign and magnitude. -/
theorem toNat_toBits_ofMagnitude (negative : Bool) {magnitude : Nat}
    (bound : magnitude ≤ infinite) :
    (ofMagnitude negative magnitude).toBits.toNat =
      if negative then signBit + magnitude else magnitude := by
  change magnitude ≤ 2047 * 2 ^ 52 at bound
  have small : (if negative then signBit + magnitude else magnitude) < 2 ^ 64 := by
    change (if negative then 2 ^ 63 + magnitude else magnitude) < 2 ^ 64
    split <;> omega
  rw [ofMagnitude, toBits_ofBits, UInt64.toNat_ofNat_of_lt' small]
  apply valid_of_magnitude_le
  change (UInt64.ofNat _).toNat % 2 ^ 63 ≤ 2047 * 2 ^ 52
  rw [UInt64.toNat_ofNat_of_lt' small]
  change (if negative then 2 ^ 63 + magnitude else magnitude) % 2 ^ 63 ≤ 2047 * 2 ^ 52
  split <;> omega

theorem magnitude_ofMagnitude (negative : Bool) {magnitude : Nat} (bound : magnitude ≤ infinite) :
    Number.magnitude (ofMagnitude negative magnitude) = magnitude := by
  rw [Number.magnitude, toNat_toBits_ofMagnitude negative bound]
  change magnitude ≤ 2047 * 2 ^ 52 at bound
  change (if negative then 2 ^ 63 + magnitude else magnitude) % 2 ^ 63 = magnitude
  split <;> omega

theorem isNegative_ofMagnitude (negative : Bool) {magnitude : Nat} (bound : magnitude ≤ infinite) :
    isNegative (ofMagnitude negative magnitude) = negative := by
  rw [isNegative, toNat_toBits_ofMagnitude negative bound]
  change magnitude ≤ 2047 * 2 ^ 52 at bound
  cases negative with
  | true => exact decide_eq_true (Nat.le_add_right ..)
  | false =>
      apply decide_eq_false
      change ¬2 ^ 63 ≤ magnitude
      omega

end RuleLisp.Number
