import Mathlib.Tactic.Ring
import RuleLisp.Proofs.Number.Nearest

/-! # Rounding to the nearest number

Rounding keeps the order of ratios, so all decimals that are read as one number lie next to each
other. It moves a ratio by half a spacing at most. Up to two to the power of fifty-three the spacing
is at most one, so a whole number there is read as itself and as no other.
-/

namespace RuleLisp.Number

/-! ## Quotients -/

/-- A quotient is rounded to one of the two whole numbers next to it. -/
theorem roundedQuotient_cases (numerator denominator : Nat) :
    roundedQuotient numerator denominator = numerator / denominator ∧
        2 * (numerator % denominator) ≤ denominator ∨
      roundedQuotient numerator denominator = numerator / denominator + 1 ∧
        denominator ≤ 2 * (numerator % denominator) := by
  unfold roundedQuotient
  dsimp only
  split
  · omega
  · split <;> omega

/-- A rounded quotient is at most one half away from the quotient. -/
theorem roundedQuotient_error (numerator : Nat) {denominator : Nat} (positive : 0 < denominator) :
    2 * numerator ≤ 2 * (roundedQuotient numerator denominator * denominator) + denominator ∧
      2 * (roundedQuotient numerator denominator * denominator) ≤ 2 * numerator + denominator := by
  have split := Nat.div_add_mod' numerator denominator
  rcases roundedQuotient_cases numerator denominator with ⟨same, near⟩ | ⟨next, near⟩
  · rw [same]
    omega
  · have bound := Nat.mod_lt numerator positive
    rw [next, Nat.add_mul, Nat.one_mul]
    omega

theorem roundedQuotient_mono {numerator other : Nat} (ordered : numerator ≤ other)
    (denominator : Nat) :
    roundedQuotient numerator denominator ≤ roundedQuotient other denominator := by
  have quotients := Nat.div_le_div_right (c := denominator) ordered
  rcases Nat.lt_or_eq_of_le quotients with less | same
  · have low := roundedQuotient_cases numerator denominator
    have high := roundedQuotient_cases other denominator
    omega
  · -- With equal quotients the remainders are in order.
    have split := Nat.div_add_mod' numerator denominator
    have otherSplit := Nat.div_add_mod' other denominator
    have remainders : numerator % denominator ≤ other % denominator := by
      rw [← same] at otherSplit
      omega
    unfold roundedQuotient
    dsimp only
    rw [← same]
    split_ifs <;> omega

/-! ## Order -/

def ratioDoublings (count denominator : Nat) : Nat :=
  (count / denominator).log2 - 52

/-- A ratio of units, rounded to the spacings around it. -/
def ratioSpacings (count denominator : Nat) : Nat :=
  roundedQuotient count (denominator * 2 ^ ratioDoublings count denominator)

theorem nearest_eq (numerator denominator : Nat) :
    nearest numerator denominator =
      min (ratioDoublings (numerator * unitsPerOne) denominator * spacingSize +
        ratioSpacings (numerator * unitsPerOne) denominator) infinite :=
  rfl

section

variable (count : Nat) {denominator : Nat} (positive : 0 < denominator)

include positive

theorem lt_of_ratioDoublings :
    count < 2 ^ 53 * (denominator * 2 ^ ratioDoublings count denominator) := by
  have bound : count / denominator < 2 ^ ((count / denominator).log2 + 1) := Nat.lt_log2_self
  have exponents : (count / denominator).log2 + 1 ≤ 53 + ratioDoublings count denominator := by
    rw [ratioDoublings]
    omega
  have power := Nat.pow_le_pow_right (show 0 < 2 by decide) exponents
  rw [Nat.div_lt_iff_lt_mul positive] at bound
  calc count
      < 2 ^ ((count / denominator).log2 + 1) * denominator := bound
    _ ≤ 2 ^ (53 + ratioDoublings count denominator) * denominator :=
        Nat.mul_le_mul_right denominator power
    _ = 2 ^ 53 * (denominator * 2 ^ ratioDoublings count denominator) := by
        rw [Nat.pow_add, Nat.mul_assoc, Nat.mul_comm denominator]

theorem le_of_ratioDoublings (doubled : 0 < ratioDoublings count denominator) :
    2 ^ 52 * (denominator * 2 ^ ratioDoublings count denominator) ≤ count := by
  have exponents : 52 + ratioDoublings count denominator = (count / denominator).log2 := by
    rw [ratioDoublings] at doubled ⊢
    omega
  have nonzero : count / denominator ≠ 0 := by
    intro zero
    rw [ratioDoublings, zero] at doubled
    exact absurd doubled (by decide)
  have bound : 2 ^ (count / denominator).log2 ≤ count / denominator := Nat.log2_self_le nonzero
  rw [Nat.le_div_iff_mul_le positive, ← exponents, Nat.pow_add] at bound
  calc 2 ^ 52 * (denominator * 2 ^ ratioDoublings count denominator)
      = 2 ^ 52 * 2 ^ ratioDoublings count denominator * denominator := by
        rw [Nat.mul_assoc, Nat.mul_comm denominator]
    _ ≤ count := bound

/-- The spacings of a ratio are a significand, or the first one after the next doubling. -/
theorem ratioSpacings_bounds :
    ratioSpacings count denominator ≤ 2 ^ 53 ∧
      (ratioDoublings count denominator = 0 ∨ 2 ^ 52 ≤ ratioSpacings count denominator) := by
  have scale : 0 < denominator * 2 ^ ratioDoublings count denominator :=
    Nat.mul_pos positive (Nat.two_pow_pos _)
  constructor
  · have mono := roundedQuotient_mono (lt_of_ratioDoublings count positive).le
      (denominator * 2 ^ ratioDoublings count denominator)
    rwa [roundedQuotient_mul_self _ scale] at mono
  · rcases Nat.eq_zero_or_pos (ratioDoublings count denominator) with none | doubled
    · exact .inl none
    · have mono := roundedQuotient_mono (le_of_ratioDoublings count positive doubled)
        (denominator * 2 ^ ratioDoublings count denominator)
      rw [roundedQuotient_mul_self _ scale] at mono
      exact .inr mono

end

theorem ratioDoublings_mono {count other : Nat} (ordered : count ≤ other) (denominator : Nat) :
    ratioDoublings count denominator ≤ ratioDoublings other denominator := by
  have quotients := Nat.div_le_div_right (c := denominator) ordered
  have logs : (count / denominator).log2 ≤ (other / denominator).log2 := by
    rcases Nat.eq_zero_or_pos (count / denominator) with zero | some
    · rw [zero]
      exact Nat.zero_le _
    · apply (Nat.le_log2 (by omega)).mpr
      exact (Nat.log2_self_le (by omega)).trans quotients
  unfold ratioDoublings
  omega

theorem nearest_le_nearest {numerator other : Nat} (ordered : numerator ≤ other)
    {denominator : Nat} (positive : 0 < denominator) :
    nearest numerator denominator ≤ nearest other denominator := by
  have counts := Nat.mul_le_mul_right unitsPerOne ordered
  rw [nearest_eq, nearest_eq]
  generalize numerator * unitsPerOne = count at counts ⊢
  generalize other * unitsPerOne = otherCount at counts ⊢
  apply min_le_min_right
  rcases Nat.lt_or_eq_of_le (ratioDoublings_mono counts denominator) with less | same
  · -- The first number after a doubling is at least the last one before it.
    have low := (ratioSpacings_bounds count positive).1
    have high := (ratioSpacings_bounds otherCount positive).2.resolve_left (by omega)
    have size : spacingSize = 2 ^ 52 := rfl
    have further := Nat.mul_le_mul_right spacingSize less
    rw [Nat.succ_mul] at further
    omega
  · rw [ratioSpacings, ratioSpacings, same]
    exact Nat.add_le_add_left (roundedQuotient_mono counts _) _

/-- Numbers keep the order of the ratios that they are nearest to. -/
theorem nearest_mono {numerator denominator other otherDenominator : Nat}
    (positive : 0 < denominator) (otherPositive : 0 < otherDenominator)
    (ordered : numerator * otherDenominator ≤ other * denominator) :
    nearest numerator denominator ≤ nearest other otherDenominator := by
  rw [← nearest_mul_right numerator denominator otherPositive,
    ← nearest_mul_right other otherDenominator positive, Nat.mul_comm otherDenominator]
  exact nearest_le_nearest ordered (Nat.mul_pos positive otherPositive)

/-! ## Errors -/

theorem doublings_mul_add {times spacings : Nat} (least : 2 ^ 52 ≤ spacings)
    (most : spacings < 2 ^ 53) :
    doublings (times * spacingSize + spacings) = times := by
  change (times * 2 ^ 52 + spacings) / 2 ^ 52 - 1 = times
  omega

/-- Doublings and spacings that come from a ratio make up a number of as many units. -/
theorem units_mul_add {times spacings : Nat} (most : spacings ≤ 2 ^ 53)
    (least : times = 0 ∨ 2 ^ 52 ≤ spacings) :
    units (times * spacingSize + spacings) = spacings * 2 ^ times ∧
      times ≤ doublings (times * spacingSize + spacings) := by
  have whole := doublings_mul_add_significand (times * spacingSize + spacings)
  rcases Nat.lt_or_ge spacings spacingSize with low | high
  · have zero : times = 0 := least.resolve_right (Nat.not_le.mpr low)
    subst zero
    rw [Nat.zero_mul, Nat.zero_add, units, significand_of_lt low, doublings_of_lt low]
    exact ⟨rfl, Nat.le_refl 0⟩
  · rcases Nat.lt_or_eq_of_le most with inside | rfl
    · have same : doublings (times * spacingSize + spacings) = times :=
        doublings_mul_add high inside
      rw [same] at whole
      rw [units, same, Nat.add_left_cancel whole]
      exact ⟨rfl, Nat.le_refl times⟩
    · -- The last spacing before a doubling is the first one after it.
      have carried : times * spacingSize + 2 ^ 53 = (times + 1) * spacingSize + 2 ^ 52 := by
        change times * 2 ^ 52 + 2 ^ 53 = (times + 1) * 2 ^ 52 + 2 ^ 52
        omega
      have next : doublings (times * spacingSize + 2 ^ 53) = times + 1 := by
        rw [carried]
        exact doublings_mul_add (by decide) (by decide)
      rw [next, carried] at whole
      rw [units, next, carried, Nat.add_left_cancel whole]
      refine ⟨?_, Nat.le_succ times⟩
      rw [Nat.pow_eq, Nat.pow_succ]
      omega

/-- A number is at most half a spacing away from a ratio that it is nearest to. -/
theorem nearest_error {numerator denominator magnitude : Nat} (positive : 0 < denominator)
    (finite : magnitude < infinite) (near : nearest numerator denominator = magnitude) :
    2 * (numerator * unitsPerOne) ≤
        2 * (units magnitude * denominator) + 2 ^ doublings magnitude * denominator ∧
      2 * (units magnitude * denominator) ≤
        2 * (numerator * unitsPerOne) + 2 ^ doublings magnitude * denominator := by
  rw [nearest_eq] at near
  generalize numerator * unitsPerOne = count at near ⊢
  have exact : ratioDoublings count denominator * spacingSize + ratioSpacings count denominator =
      magnitude := by
    omega
  rcases ratioSpacings_bounds count positive with ⟨most, least⟩
  rcases units_mul_add most least with ⟨unitCount, doublingCount⟩
  rw [exact] at unitCount doublingCount
  have spacing : denominator * 2 ^ ratioDoublings count denominator ≤
      2 ^ doublings magnitude * denominator := by
    rw [Nat.mul_comm denominator]
    exact Nat.mul_le_mul_right denominator (Nat.pow_le_pow_right (by decide) doublingCount)
  have error := roundedQuotient_error count
    (Nat.mul_pos positive (Nat.two_pow_pos (ratioDoublings count denominator)))
  have exactUnits : units magnitude * denominator =
      ratioSpacings count denominator * (denominator * 2 ^ ratioDoublings count denominator) := by
    rw [unitCount, Nat.mul_assoc, Nat.mul_comm denominator]
  rw [exactUnits, ratioSpacings]
  omega

/-! ## Whole numbers -/

theorem unitsPerOne_pos : 0 < unitsPerOne := by
  unfold unitsPerOne
  generalize 1074 = most
  exact Nat.two_pow_pos most

theorem nearest_whole {magnitude whole : Nat} (finite : magnitude < infinite)
    (exact : units magnitude = whole * unitsPerOne) : nearest whole 1 = magnitude := by
  apply nearest_of_eq_units finite Nat.one_pos
  rw [exact, Nat.mul_one]

theorem log2_mul_pow_sub_le {whole : Nat} (small : whole < 2 ^ 53) (most : Nat) :
    (whole * Nat.pow 2 most).log2 - 52 ≤ most := by
  rcases Nat.eq_zero_or_pos whole with rfl | positive
  · simp
  · have nonzero : whole * Nat.pow 2 most ≠ 0 :=
      Nat.ne_of_gt (Nat.mul_pos positive (Nat.two_pow_pos most))
    have bound : whole * Nat.pow 2 most < 2 ^ (53 + most) := by
      rw [Nat.pow_add]
      exact Nat.mul_lt_mul_of_pos_right small (Nat.two_pow_pos most)
    have digits := (Nat.log2_lt nonzero).mpr bound
    omega

/-- Around a whole number below two to the power of fifty-three the spacing is at most one. -/
theorem pow_doublings_le {magnitude whole : Nat} (small : whole < 2 ^ 53)
    (exact : units magnitude = whole * unitsPerOne) : 2 ^ doublings magnitude ≤ unitsPerOne := by
  have logs := log2_units_sub magnitude
  rw [exact] at logs
  unfold unitsPerOne at logs ⊢
  generalize 1074 = most at logs ⊢
  rw [← logs]
  exact Nat.pow_le_pow_right (by decide) (log2_mul_pow_sub_le small most)

/-- A ratio that is read as such a whole number is at most one half away from it. -/
theorem near_whole {numerator denominator magnitude whole : Nat} (positive : 0 < denominator)
    (finite : magnitude < infinite) (near : nearest numerator denominator = magnitude)
    (small : whole < 2 ^ 53) (exact : units magnitude = whole * unitsPerOne) :
    2 * numerator ≤ 2 * (whole * denominator) + denominator ∧
      2 * (whole * denominator) ≤ 2 * numerator + denominator := by
  have scale := unitsPerOne_pos
  have spacing := Nat.mul_le_mul_right denominator (pow_doublings_le small exact)
  rcases nearest_error positive finite near with ⟨above, below⟩
  rw [exact] at above below
  generalize unitsPerOne = one at *
  constructor
  · apply Nat.le_of_mul_le_mul_right _ scale
    calc 2 * numerator * one
        = 2 * (numerator * one) := by ring
      _ ≤ 2 * (whole * one * denominator) + one * denominator := by omega
      _ = (2 * (whole * denominator) + denominator) * one := by ring
  · apply Nat.le_of_mul_le_mul_right _ scale
    calc 2 * (whole * denominator) * one
        = 2 * (whole * one * denominator) := by ring
      _ ≤ 2 * (numerator * one) + one * denominator := by omega
      _ = (2 * numerator + denominator) * one := by ring

/-- No other whole number is read as such a whole number. -/
theorem eq_of_near_whole {numerator denominator magnitude whole : Nat} (positive : 0 < denominator)
    (finite : magnitude < infinite)
    (near : nearest (numerator * denominator) denominator = magnitude) (small : whole < 2 ^ 53)
    (exact : units magnitude = whole * unitsPerOne) : numerator = whole := by
  rcases near_whole positive finite near small exact with ⟨above, below⟩
  apply Nat.le_antisymm
  · by_contra! larger
    have step := Nat.mul_le_mul_right denominator larger
    rw [Nat.succ_mul] at step
    omega
  · by_contra! smaller
    have step := Nat.mul_le_mul_right denominator smaller
    rw [Nat.succ_mul] at step
    omega

end RuleLisp.Number
