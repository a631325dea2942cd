import Mathlib.Tactic.Positivity
import RuleLisp.Number.Decimal

/-! # The nearest number

The number nearest to a ratio depends on the ratio alone, and a number is nearest to itself. So the
shortest decimal of a number, which is found by trying, reads back as that number.
-/

namespace RuleLisp.Number

/-! ## Rounding -/

theorem roundedQuotient_mul_right (numerator denominator : Nat) {factor : Nat}
    (positive : 0 < factor) :
    roundedQuotient (numerator * factor) (denominator * factor) =
      roundedQuotient numerator denominator := by
  have below : 2 * (numerator % denominator * factor) < denominator * factor ↔
      2 * (numerator % denominator) < denominator := by
    rw [← Nat.mul_assoc]
    exact Nat.mul_lt_mul_right positive
  have above : denominator * factor < 2 * (numerator % denominator * factor) ↔
      denominator < 2 * (numerator % denominator) := by
    rw [← Nat.mul_assoc]
    exact Nat.mul_lt_mul_right positive
  simp only [roundedQuotient, Nat.mul_div_mul_right _ _ positive, Nat.mul_mod_mul_right, below,
    above]

theorem roundedQuotient_mul_self (quotient : Nat) {denominator : Nat}
    (positive : 0 < denominator) :
    roundedQuotient (quotient * denominator) denominator = quotient := by
  simp [roundedQuotient, Nat.mul_div_cancel _ positive, positive]

theorem nearest_mul_right (numerator denominator : Nat) {factor : Nat} (positive : 0 < factor) :
    nearest (numerator * factor) (denominator * factor) = nearest numerator denominator := by
  have count : numerator * factor * unitsPerOne = numerator * unitsPerOne * factor :=
    Nat.mul_right_comm ..
  have spaced (spacing : Nat) :
      denominator * factor * Nat.pow 2 spacing = denominator * Nat.pow 2 spacing * factor :=
    Nat.mul_right_comm ..
  simp only [nearest, count, spaced, Nat.mul_div_mul_right _ _ positive,
    roundedQuotient_mul_right _ _ positive]

theorem nearest_le_infinite (numerator denominator : Nat) :
    nearest numerator denominator ≤ infinite :=
  Nat.min_le_right ..

/-! ## Numbers are nearest to themselves -/

theorem spacingSize_pos : 0 < spacingSize :=
  Nat.pow_pos (by decide)

theorem significand_of_lt {magnitude : Nat} (low : magnitude < spacingSize) :
    significand magnitude = magnitude :=
  if_pos low

theorem doublings_of_lt {magnitude : Nat} (low : magnitude < spacingSize) :
    doublings magnitude = 0 := by
  rw [doublings, Nat.div_eq_of_lt low]

theorem significand_of_le {magnitude : Nat} (high : spacingSize ≤ magnitude) :
    significand magnitude = spacingSize + magnitude % spacingSize :=
  if_neg (Nat.not_lt.mpr high)

/-- A magnitude counts first by doublings of the spacing, then by spacings. -/
theorem doublings_mul_add_significand (magnitude : Nat) :
    doublings magnitude * spacingSize + significand magnitude = magnitude := by
  rcases Nat.lt_or_ge magnitude spacingSize with low | high
  · rw [doublings_of_lt low, significand_of_lt low, Nat.zero_mul, Nat.zero_add]
  · have quotient : 1 ≤ magnitude / spacingSize := Nat.div_pos high spacingSize_pos
    have whole : (magnitude / spacingSize - 1) * spacingSize + spacingSize =
        magnitude / spacingSize * spacingSize := by
      rw [← Nat.succ_mul, Nat.succ_eq_add_one, Nat.sub_add_cancel quotient]
    rw [doublings, significand_of_le high, ← Nat.add_assoc, whole, Nat.mul_comm]
    exact Nat.div_add_mod ..

/-- The spacing around a number can be told from the count of its units. -/
theorem log2_units_sub (magnitude : Nat) :
    (units magnitude).log2 - 52 = doublings magnitude := by
  rcases Nat.lt_or_ge magnitude spacingSize with low | high
  · rw [units, doublings_of_lt low, significand_of_lt low]
    change magnitude < 2 ^ 52 at low
    change (magnitude * 1).log2 - 52 = 0
    rcases Nat.eq_zero_or_pos magnitude with rfl | positive
    · rfl
    · have digits := (Nat.log2_lt (Nat.ne_of_gt positive)).mpr low
      rw [Nat.mul_one]
      omega
  · have bound := Nat.mod_lt magnitude spacingSize_pos
    have digits : (units magnitude).log2 = 52 + doublings magnitude := by
      rw [units, significand_of_le high]
      change (_ * 2 ^ _).log2 = _
      change _ < 2 ^ 52 at bound
      change ((2 ^ 52 + _) * _).log2 = _
      have scale : 0 < 2 ^ doublings magnitude := Nat.pow_pos (by decide)
      refine (Nat.log2_eq_iff (by positivity)).mpr ⟨?_, ?_⟩
      · rw [Nat.pow_add]
        exact Nat.mul_le_mul_right _ (Nat.le_add_right ..)
      · rw [Nat.add_right_comm, Nat.pow_add]
        exact Nat.mul_lt_mul_of_pos_right (by omega) scale
    omega

theorem pow_two_sub_mul (doublings most : Nat) :
    Nat.pow 2 (doublings - most) * Nat.pow 2 most =
      Nat.pow 2 doublings * Nat.pow 2 (most - doublings) := by
  have exponents : doublings - most + most = doublings + (most - doublings) := by omega
  simp only [Nat.pow_eq]
  rw [← Nat.pow_add, exponents, Nat.pow_add]

theorem grains_mul_unitsPerOne (magnitude : Nat) :
    grains magnitude * unitsPerOne = units magnitude * Nat.pow 10 (places magnitude) := by
  have twos : Nat.pow 2 (doublings magnitude - 1074) * unitsPerOne =
      Nat.pow 2 (doublings magnitude) * Nat.pow 2 (places magnitude) :=
    pow_two_sub_mul (doublings magnitude) 1074
  have tens : Nat.pow 10 (places magnitude) =
      Nat.pow 2 (places magnitude) * Nat.pow 5 (places magnitude) :=
    Nat.mul_pow 2 5 _
  rw [grains, units, Nat.mul_assoc _ _ unitsPerOne, twos, tens]
  ac_rfl

/-- A ratio that is a number is nearest to that number. -/
theorem nearest_of_eq_units {magnitude numerator denominator : Nat} (finite : magnitude < infinite)
    (positive : 0 < denominator)
    (exact : numerator * unitsPerOne = units magnitude * denominator) :
    nearest numerator denominator = magnitude := by
  have rounded : roundedQuotient (units magnitude * denominator)
      (denominator * Nat.pow 2 (doublings magnitude)) = significand magnitude := by
    rw [Nat.mul_comm denominator, roundedQuotient_mul_right _ _ positive]
    exact roundedQuotient_mul_self _ (Nat.pow_pos (by decide))
  simp only [nearest, exact, Nat.mul_div_cancel _ positive, log2_units_sub, rounded,
    doublings_mul_add_significand]
  exact Nat.min_eq_left (Nat.le_of_lt finite)

theorem nearest_grains {magnitude : Nat} (finite : magnitude < infinite) :
    nearest (grains magnitude) (Nat.pow 10 (places magnitude)) = magnitude :=
  nearest_of_eq_units finite (Nat.pow_pos (by decide)) (grains_mul_unitsPerOne magnitude)

/-! ## Shortest decimals -/

theorem readsAs_iff (magnitude decimal : Nat) :
    readsAs magnitude decimal = true ↔
      nearest decimal (Nat.pow 10 (places magnitude)) = magnitude := by
  rw [readsAs, decide_eq_true_eq]

theorem readsAs_of_neighbour? {magnitude step decimal : Nat}
    (found : neighbour? magnitude step = some decimal) : readsAs magnitude decimal = true := by
  simp only [neighbour?] at found
  split at found
  · next below =>
      cases found
      exact (Bool.and_eq_true_iff.mp below).1
  split at found
  · next above =>
      cases found
      exact above
  · cases found

theorem readsAs_shortestFrom {magnitude : Nat} (finite : magnitude < infinite) (digits : Nat) :
    readsAs magnitude (shortestFrom magnitude digits) = true := by
  induction digits with
  | zero =>
      rw [shortestFrom, readsAs_iff]
      exact nearest_grains finite
  | succ digits induction =>
      rw [shortestFrom]
      cases found : neighbour? magnitude (Nat.pow 10 digits) with
      | none => exact induction
      | some decimal => exact readsAs_of_neighbour? found

/-- The shortest decimal of a number reads back as that number. -/
theorem nearest_shortest {magnitude : Nat} (finite : magnitude < infinite) :
    nearest (shortest magnitude) (Nat.pow 10 (places magnitude)) = magnitude := by
  rw [← readsAs_iff, shortest]
  exact readsAs_shortestFrom finite _

end RuleLisp.Number
