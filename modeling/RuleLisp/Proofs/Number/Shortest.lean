import Mathlib.Data.Nat.Digits.Lemmas
import Mathlib.Data.Nat.Multiplicity
import RuleLisp.Proofs.Number.Bits
import RuleLisp.Proofs.Number.Rounding

/-! # Shortest decimals

The search for the text of a number tries the decimals next to the number, on coarse grids first.
This is enough: the decimals that are read as one number lie next to each other, so a grid that has
one of them has one next to the number. What the search ends at has as few significant digits as any
decimal that is read as the number.

For whole numbers that are exact the search ends at the number itself, because no other decimal is
so short. They can be written without a search.
-/

namespace RuleLisp.Number

/-! ## Significant digits -/

/-- The number of decimal digits of a whole number without the zeros at its end. -/
def significantDigits (number : Nat) : Nat :=
  ((Nat.digits 10 number).dropWhile (· = 0)).length

example : significantDigits 12050 = 4 ∧ significantDigits 0 = 0 := by decide

theorem significantDigits_mul_pow (number zeros : Nat) :
    significantDigits (number * 10 ^ zeros) = significantDigits number := by
  rcases Nat.eq_zero_or_pos number with rfl | positive
  · rw [Nat.zero_mul]
  · have final : ∀ digit ∈ List.replicate zeros 0, decide (digit = 0) = true := by
      intro digit member
      rw [List.eq_of_mem_replicate member]
      rfl
    rw [Nat.mul_comm, significantDigits, Nat.digits_base_pow_mul (by decide) positive,
      List.dropWhile_append_of_pos final, significantDigits]

theorem significantDigits_of_not_dvd {number : Nat} (ends : ¬10 ∣ number) :
    significantDigits number = (Nat.digits 10 number).length := by
  have positive : 0 < number := Nat.pos_of_ne_zero fun zero => ends (zero ▸ Nat.dvd_zero 10)
  have last : ¬decide (number % 10 = 0) = true := by
    rwa [decide_eq_true_eq, ← Nat.dvd_iff_mod_eq_zero]
  rw [significantDigits, Nat.digits_def' (by decide) positive,
    List.dropWhile_cons_of_neg (p := fun digit => decide (digit = 0)) last]

/-- A number has few significant digits if it is a short number followed by zeros. -/
theorem significantDigits_le_iff {number most : Nat} :
    significantDigits number ≤ most ↔
      ∃ front zeros, number = front * 10 ^ zeros ∧ front < 10 ^ most := by
  constructor
  · intro few
    rcases Nat.eq_zero_or_pos number with rfl | positive
    · exact ⟨0, 0, rfl, Nat.pow_pos (by decide)⟩
    · obtain ⟨zeros, front, ends, rfl⟩ :=
        Nat.exists_eq_pow_mul_and_not_dvd (Nat.ne_of_gt positive) 10 (by decide)
      refine ⟨front, zeros, Nat.mul_comm .., ?_⟩
      rw [Nat.mul_comm, significantDigits_mul_pow, significantDigits_of_not_dvd ends] at few
      exact (Nat.digits_length_le_iff (by decide) front).mp few
  · rintro ⟨front, zeros, rfl, short⟩
    rw [significantDigits_mul_pow]
    exact ((List.dropWhile_sublist _).length_le).trans
      ((Nat.digits_length_le_iff (by decide) front).mpr short)

theorem significantDigits_pos {number : Nat} (positive : 0 < number) :
    0 < significantDigits number := by
  by_contra! none
  obtain ⟨front, zeros, rfl, short⟩ := significantDigits_le_iff.mp none
  rw [Nat.lt_one_iff.mp short, Nat.zero_mul] at positive
  exact Nat.lt_irrefl 0 positive

theorem pow_le_of_significantDigits {number : Nat} (positive : 0 < number) :
    10 ^ (significantDigits number - 1) ≤ number := by
  by_contra! less
  have fewer : significantDigits number ≤ significantDigits number - 1 :=
    significantDigits_le_iff.mpr ⟨number, 0, (Nat.mul_one number).symm, less⟩
  have some := significantDigits_pos positive
  omega

/-- A number that ends in zeros has few significant digits also if it is the next power of ten. -/
theorem significantDigits_le_of_dvd {number most zeros : Nat} (some : 0 < most)
    (ends : 10 ^ zeros ∣ number) (bound : number ≤ 10 ^ (most + zeros)) :
    significantDigits number ≤ most := by
  apply significantDigits_le_iff.mpr
  rcases Nat.lt_or_eq_of_le bound with less | rfl
  · obtain ⟨front, rfl⟩ := ends
    refine ⟨front, zeros, Nat.mul_comm .., ?_⟩
    rw [Nat.pow_add, Nat.mul_comm] at less
    exact Nat.lt_of_mul_lt_mul_right less
  · exact ⟨1, most + zeros, (Nat.one_mul _).symm, Nat.one_lt_pow (by omega) (by decide)⟩

/-! ## The search -/

section

variable {magnitude : Nat}

/-- The decimals that are read as one number lie next to each other. -/
theorem readsAs_of_between {low decimal high : Nat} (lowReads : readsAs magnitude low = true)
    (highReads : readsAs magnitude high = true) (above : low ≤ decimal) (below : decimal ≤ high) :
    readsAs magnitude decimal = true := by
  rw [readsAs_iff] at lowReads highReads ⊢
  have scale : 0 < Nat.pow 10 (places magnitude) := Nat.pow_pos (by decide)
  apply Nat.le_antisymm
  · exact (nearest_le_nearest below scale).trans_eq highReads
  · exact lowReads.ge.trans (nearest_le_nearest above scale)

theorem readsAs_grains (finite : magnitude < infinite) :
    readsAs magnitude (grains magnitude) = true := by
  rw [readsAs_iff]
  exact nearest_grains finite

/-- What the search finds at one step. -/
theorem neighbour?_cases (magnitude step : Nat) :
    let below := grains magnitude / step * step
    (neighbour? magnitude step = some below ∧ readsAs magnitude below = true) ∨
      (neighbour? magnitude step = some (below + step) ∧
        readsAs magnitude (below + step) = true ∧
        (readsAs magnitude below = true →
          below + step - grains magnitude ≤ grains magnitude - below)) ∨
      (neighbour? magnitude step = none ∧ readsAs magnitude below = false ∧
        readsAs magnitude (below + step) = false) := by
  intro below
  simp only [neighbour?]
  split
  · next chosen => exact .inl ⟨rfl, (Bool.and_eq_true_iff.mp chosen).1⟩
  · next refused =>
      split
      · next reads =>
          refine .inr (.inl ⟨rfl, reads, fun low => ?_⟩)
          simpa [below, low, reads] using refused
      · next unread =>
          have low : readsAs magnitude below = false := by
            simpa [below, unread] using refused
          exact .inr (.inr ⟨rfl, low, Bool.eq_false_iff.mpr unread⟩)

/-- If some multiple of a step is read as a number, then so is one of those next to the number. -/
theorem neighbour?_ne_none (finite : magnitude < infinite) {step factor : Nat}
    (positive : 0 < step) (reads : readsAs magnitude (factor * step) = true) :
    neighbour? magnitude step ≠ none := by
  intro missing
  have exact := readsAs_grains finite
  have below : grains magnitude / step * step ≤ grains magnitude := Nat.div_mul_le_self ..
  have above := Nat.lt_div_mul_add (a := grains magnitude) positive
  rcases neighbour?_cases magnitude step with ⟨found, _⟩ | ⟨found, _⟩ | ⟨_, low, high⟩
  · simp [missing] at found
  · simp [missing] at found
  · rcases Nat.lt_or_ge (grains magnitude) (factor * step) with later | earlier
    · have factors : grains magnitude / step < factor := (Nat.div_lt_iff_lt_mul positive).mpr later
      have next := Nat.mul_le_mul_right step factors
      rw [Nat.succ_mul] at next
      rw [readsAs_of_between exact reads above.le next] at high
      cases high
    · have factors : factor ≤ grains magnitude / step :=
        (Nat.le_div_iff_mul_le positive).mpr earlier
      rw [readsAs_of_between reads exact (Nat.mul_le_mul_right step factors) below] at low
      cases low

/-- The search ends at a multiple of a power of ten if some multiple of it would do. -/
theorem pow_dvd_shortestFrom (finite : magnitude < infinite) {zeros factor : Nat}
    (reads : readsAs magnitude (factor * 10 ^ zeros) = true) {digits : Nat}
    (within : zeros < digits) : 10 ^ zeros ∣ shortestFrom magnitude digits := by
  induction digits with
  | zero => omega
  | succ digits induction =>
      rw [shortestFrom, Nat.pow_eq]
      have power : 10 ^ zeros ∣ 10 ^ digits := Nat.pow_dvd_pow 10 (Nat.le_of_lt_succ within)
      rcases neighbour?_cases magnitude (10 ^ digits) with
        ⟨found, _⟩ | ⟨found, _⟩ | ⟨missing, _⟩
      · rw [found]
        exact power.mul_left _
      · rw [found]
        exact Nat.dvd_add (power.mul_left _) power
      · have later : zeros ≠ digits := by
          rintro rfl
          exact neighbour?_ne_none finite (Nat.pow_pos (by decide)) reads missing
        rw [missing]
        exact induction (by omega)

theorem shortestFrom_le {digits most : Nat} (within : digits ≤ most)
    (bound : grains magnitude < 10 ^ most) : shortestFrom magnitude digits ≤ 10 ^ most := by
  induction digits with
  | zero => exact bound.le
  | succ digits induction =>
      rw [shortestFrom, Nat.pow_eq]
      have positive : 0 < 10 ^ digits := Nat.pow_pos (by decide)
      have power : 10 ^ most = 10 ^ (most - digits) * 10 ^ digits := by
        rw [← Nat.pow_add, Nat.sub_add_cancel (Nat.le_of_succ_le within)]
      have above : grains magnitude / 10 ^ digits * 10 ^ digits + 10 ^ digits ≤ 10 ^ most := by
        rw [power] at bound ⊢
        rw [← Nat.succ_mul]
        exact Nat.mul_le_mul_right _ ((Nat.div_lt_iff_lt_mul positive).mpr bound)
      rcases neighbour?_cases magnitude (10 ^ digits) with
        ⟨found, _⟩ | ⟨found, _⟩ | ⟨missing, _⟩
      · rw [found]
        exact (Nat.le_add_right ..).trans above
      · rw [found]
        exact above
      · rw [missing]
        exact induction (Nat.le_of_succ_le within)

end

/-! ## Counts of digits -/

theorem digitCountFrom_spec {number fuel digits : Nat} (enough : number < 10 ^ (digits + fuel))
    (started : digits = 0 ∨ 10 ^ (digits - 1) ≤ number) :
    number < 10 ^ digitCountFrom number fuel digits ∧
      (digitCountFrom number fuel digits = 0 ∨
        10 ^ (digitCountFrom number fuel digits - 1) ≤ number) := by
  induction fuel generalizing digits with
  | zero => exact ⟨enough, started⟩
  | succ fuel induction =>
      rw [digitCountFrom, Nat.pow_eq]
      split
      · next below => exact ⟨below, started⟩
      · next above =>
          apply induction
          · rwa [Nat.add_right_comm]
          · exact .inr (Nat.le_of_not_lt above)

/-- Three decimal digits take less than ten binary ones. -/
theorem pow_ten_le_pow_two (digits : Nat) : 10 ^ (digits * 3 / 10) ≤ 2 ^ digits := by
  apply (Nat.pow_le_pow_iff_left (show 10 ≠ 0 by decide)).mp
  calc (10 ^ (digits * 3 / 10)) ^ 10
      = 10 ^ (digits * 3 / 10 * 10) := (Nat.pow_mul ..).symm
    _ ≤ 10 ^ (3 * digits) := Nat.pow_le_pow_right (by decide) (by omega)
    _ = (10 ^ 3) ^ digits := Nat.pow_mul ..
    _ ≤ (2 ^ 10) ^ digits := Nat.pow_le_pow_left (by decide) digits
    _ = (2 ^ digits) ^ 10 := Nat.pow_right_comm ..

theorem digitCount_spec (number : Nat) :
    number < 10 ^ digitCount number ∧
      (digitCount number = 0 ∨ 10 ^ (digitCount number - 1) ≤ number) := by
  apply digitCountFrom_spec
  · calc number
        < 2 ^ (number.log2 + 1) := Nat.lt_log2_self
      _ ≤ 10 ^ (number.log2 + 1) := Nat.pow_le_pow_left (by decide) _
      _ ≤ 10 ^ (number.log2 * 3 / 10 + (number.log2 + 1)) :=
          Nat.pow_le_pow_right (by decide) (Nat.le_add_left ..)
  · rcases Nat.eq_zero_or_pos number with rfl | positive
    · exact .inl rfl
    · right
      calc 10 ^ (number.log2 * 3 / 10 - 1)
          ≤ 10 ^ (number.log2 * 3 / 10) := Nat.pow_le_pow_right (by decide) (Nat.sub_le ..)
        _ ≤ 2 ^ number.log2 := pow_ten_le_pow_two _
        _ ≤ number := Nat.log2_self_le (Nat.ne_of_gt positive)

/-! ## Shortest decimals -/

/-- A decimal is read as a magnitude, and no decimal of fewer significant digits is. -/
structure IsShortest (magnitude places decimal : Nat) : Prop where
  reads : nearest decimal (Nat.pow 10 places) = magnitude
  fewest : ∀ otherPlaces other, nearest other (Nat.pow 10 otherPlaces) = magnitude →
    significantDigits decimal ≤ significantDigits other

section

variable {magnitude : Nat}

theorem shortest_zero : shortest 0 = 0 := by
  have zero : grains 0 = 0 := by
    rw [grains, significand_of_lt spacingSize_pos, Nat.zero_mul, Nat.zero_mul]
  rw [shortest, zero]
  exact zero

theorem nearest_zero {denominator : Nat} (positive : 0 < denominator) :
    nearest 0 denominator = 0 := by
  have units_zero : units 0 = 0 := by
    rw [units, significand_of_lt spacingSize_pos, Nat.zero_mul]
  apply nearest_of_eq_units (Nat.mul_pos (by decide) spacingSize_pos) positive
  rw [units_zero, Nat.zero_mul, Nat.zero_mul]

/-- If a decimal of few significant digits is read as a number, then so is a short count of
grains followed by zeros. -/
theorem exists_multiple_readsAs (finite : magnitude < infinite) {other otherPlaces : Nat}
    (reads : nearest other (Nat.pow 10 otherPlaces) = magnitude)
    (some : 0 < significantDigits other)
    (fewer : significantDigits other < digitCount (grains magnitude)) :
    ∃ factor, readsAs magnitude
      (factor * 10 ^ (digitCount (grains magnitude) - significantDigits other)) = true := by
  generalize most : significantDigits other = digits at some fewer ⊢
  obtain ⟨front, zeros, rfl, short⟩ := significantDigits_le_iff.mp most.le
  have least := (digitCount_spec (grains magnitude)).2.resolve_left (by omega)
  generalize digitCount (grains magnitude) = count at fewer least ⊢
  have scale : 0 < Nat.pow 10 (places magnitude) := Nat.pow_pos (by decide)
  have otherScale : 0 < Nat.pow 10 otherPlaces := Nat.pow_pos (by decide)
  rcases Nat.lt_or_ge (front * 10 ^ zeros * 10 ^ places magnitude)
    (10 ^ (count - 1) * 10 ^ otherPlaces) with small | large
  · -- The least number with as many digits lies between the decimal and the number.
    refine ⟨10 ^ (digits - 1), ?_⟩
    have power : 10 ^ (digits - 1) * 10 ^ (count - digits) = 10 ^ (count - 1) := by
      rw [← Nat.pow_add]
      congr 1
      omega
    rw [power, readsAs_iff]
    apply Nat.le_antisymm
    · exact (nearest_le_nearest least scale).trans_eq (nearest_grains finite)
    · exact reads.ge.trans (nearest_mono otherScale scale small.le)
  · -- The decimal has no digits below the last of that count.
    have exponents : count - 1 + otherPlaces < digits + (zeros + places magnitude) := by
      apply (Nat.pow_lt_pow_iff_right (show 1 < 10 by decide)).mp
      calc 10 ^ (count - 1 + otherPlaces)
          = 10 ^ (count - 1) * 10 ^ otherPlaces := Nat.pow_add ..
        _ ≤ front * 10 ^ zeros * 10 ^ places magnitude := large
        _ = front * 10 ^ (zeros + places magnitude) := by rw [Nat.mul_assoc, ← Nat.pow_add]
        _ < 10 ^ digits * 10 ^ (zeros + places magnitude) :=
            Nat.mul_lt_mul_of_pos_right short (Nat.pow_pos (by decide))
        _ = 10 ^ (digits + (zeros + places magnitude)) := (Nat.pow_add ..).symm
    obtain ⟨extra, split⟩ : ∃ extra, zeros + places magnitude =
        extra + (count - digits) + otherPlaces :=
      ⟨zeros + places magnitude - (count - digits) - otherPlaces, by omega⟩
    refine ⟨front * 10 ^ extra, ?_⟩
    have scaled : front * 10 ^ extra * 10 ^ (count - digits) * 10 ^ otherPlaces =
        front * 10 ^ zeros * 10 ^ places magnitude := by
      rw [Nat.mul_assoc front, Nat.mul_assoc front, Nat.mul_assoc front, ← Nat.pow_add,
        ← Nat.pow_add, ← Nat.pow_add, split]
    rw [readsAs_iff, ← nearest_mul_right _ _ otherScale, Nat.pow_eq, Nat.pow_eq, scaled,
      Nat.mul_comm (10 ^ places magnitude)]
    exact (nearest_mul_right _ _ scale).trans reads

/-- No decimal that is read as a number has fewer significant digits than the one that the search
ends at. -/
theorem isShortest_shortest (finite : magnitude < infinite) :
    IsShortest magnitude (places magnitude) (shortest magnitude) where
  reads := nearest_shortest finite
  fewest otherPlaces other reads := by
    have bound := (digitCount_spec (grains magnitude)).1
    rcases Nat.eq_zero_or_pos (significantDigits other) with none | some
    · obtain ⟨front, zeros, rfl, short⟩ := significantDigits_le_iff.mp none.le
      have zero : front = 0 := Nat.lt_one_iff.mp short
      have scale : 0 < Nat.pow 10 otherPlaces := Nat.pow_pos (by decide)
      rw [zero, Nat.zero_mul, nearest_zero scale] at reads
      rw [← reads, shortest_zero]
      exact Nat.zero_le _
    · rcases Nat.lt_or_ge (significantDigits other) (digitCount (grains magnitude)) with
        fewer | enough
      · obtain ⟨factor, multiple⟩ := exists_multiple_readsAs finite reads some fewer
        apply significantDigits_le_of_dvd some
          (pow_dvd_shortestFrom finite multiple (Nat.sub_lt (by omega) some))
        rw [Nat.add_sub_cancel' fewer.le]
        exact shortestFrom_le (Nat.le_refl _) bound
      · apply significantDigits_le_of_dvd some (show 10 ^ 0 ∣ _ from Nat.one_dvd _)
        exact (shortestFrom_le (Nat.le_refl _) bound).trans
          (Nat.pow_le_pow_right (by decide) enough)

/-! ## Whole numbers -/

variable {whole : Nat} (finite : magnitude < infinite) (small : whole < 2 ^ 53)
  (exact : units magnitude = whole * unitsPerOne)

include exact in
theorem grains_of_units_eq : grains magnitude = whole * 10 ^ places magnitude := by
  apply Nat.eq_of_mul_eq_mul_right unitsPerOne_pos
  rw [grains_mul_unitsPerOne, exact, Nat.pow_eq, Nat.mul_right_comm]

include finite small exact

theorem eq_grains_of_readsAs {decimal : Nat} (multiple : 10 ^ places magnitude ∣ decimal)
    (reads : readsAs magnitude decimal = true) : decimal = grains magnitude := by
  obtain ⟨factor, rfl⟩ := multiple
  rw [readsAs_iff, Nat.mul_comm] at reads
  rw [grains_of_units_eq exact, Nat.mul_comm,
    eq_of_near_whole (Nat.pow_pos (by decide)) finite reads small exact]

/-- No step finds anything but the whole number itself. -/
theorem getD_neighbour?_whole (digits : Nat) :
    (neighbour? magnitude (10 ^ digits)).getD (grains magnitude) = grains magnitude := by
  have step : 0 < 10 ^ digits := Nat.pow_pos (by decide)
  rcases Nat.lt_or_ge digits (places magnitude) with fine | coarse
  · -- The whole number is a multiple of the step, so it is the one below.
    have power : 10 ^ digits ∣ 10 ^ places magnitude := Nat.pow_dvd_pow 10 fine.le
    have multiple : grains magnitude / 10 ^ digits * 10 ^ digits = grains magnitude := by
      rw [grains_of_units_eq exact]
      exact Nat.div_mul_cancel (power.mul_left whole)
    rcases neighbour?_cases magnitude (10 ^ digits) with
      ⟨found, _⟩ | ⟨_, _, nearer⟩ | ⟨missing, _⟩
    · rw [found, Option.getD_some, multiple]
    · rw [multiple] at nearer
      have farther := nearer (readsAs_grains finite)
      omega
    · rw [missing, Option.getD_none]
  · have power : 10 ^ places magnitude ∣ 10 ^ digits := Nat.pow_dvd_pow 10 coarse
    rcases neighbour?_cases magnitude (10 ^ digits) with
      ⟨found, reads⟩ | ⟨found, reads, _⟩ | ⟨missing, _⟩
    · rw [found, Option.getD_some]
      exact eq_grains_of_readsAs finite small exact (power.mul_left _) reads
    · rw [found, Option.getD_some]
      exact eq_grains_of_readsAs finite small exact (Nat.dvd_add (power.mul_left _) power) reads
    · rw [missing, Option.getD_none]

theorem shortest_whole : shortest magnitude = whole * 10 ^ places magnitude := by
  rw [← grains_of_units_eq exact, shortest]
  generalize digitCount (grains magnitude) = digits
  induction digits with
  | zero => rfl
  | succ digits induction =>
      rw [shortestFrom, induction, Nat.pow_eq]
      exact getD_neighbour?_whole finite small exact digits

/-- A decimal with a fraction is not read as a whole number that has as many significant digits. -/
theorem not_reads_whole {front zeros otherPlaces : Nat} (positive : 0 < whole)
    (short : front < 10 ^ significantDigits whole) (fraction : zeros < otherPlaces) :
    nearest (front * 10 ^ zeros) (10 ^ otherPlaces) ≠ magnitude := by
  intro reads
  have some := significantDigits_pos positive
  have scale : 0 < 10 ^ otherPlaces := Nat.pow_pos (by decide)
  have itself := nearest_whole finite exact
  -- The least whole number of so many digits lies between the decimal and the number.
  have least : nearest (10 ^ (significantDigits whole - 1)) 1 = magnitude := by
    apply Nat.le_antisymm
    · exact (nearest_le_nearest (pow_le_of_significantDigits positive) Nat.one_pos).trans_eq itself
    · apply reads.ge.trans (nearest_mono scale Nat.one_pos _)
      calc front * 10 ^ zeros * 1
          = front * 10 ^ zeros := Nat.mul_one _
        _ ≤ 10 ^ significantDigits whole * 10 ^ zeros := Nat.mul_le_mul_right _ short.le
        _ = 10 ^ (significantDigits whole + zeros) := (Nat.pow_add ..).symm
        _ ≤ 10 ^ (significantDigits whole - 1 + otherPlaces) :=
            Nat.pow_le_pow_right (by decide) (by omega)
        _ = 10 ^ (significantDigits whole - 1) * 10 ^ otherPlaces := Nat.pow_add ..
  have power : 10 ^ (significantDigits whole - 1) = whole := by
    apply eq_of_near_whole Nat.one_pos finite _ small exact
    rwa [Nat.mul_one]
  have single : significantDigits whole = 1 := by
    rw [← power, ← Nat.one_mul (10 ^ _), significantDigits_mul_pow]
    rfl
  -- So the number is one, and the decimal is nine tenths at most.
  rw [single] at power short
  subst power
  have tenths : front * 10 ^ zeros * 10 ≤ 9 * 10 ^ otherPlaces := by
    calc front * 10 ^ zeros * 10
        = front * 10 ^ (zeros + 1) := by rw [Nat.mul_assoc, ← Nat.pow_succ]
      _ ≤ 9 * 10 ^ otherPlaces :=
          Nat.mul_le_mul (Nat.le_of_lt_succ short) (Nat.pow_le_pow_right (by decide) fraction)
  have less : nearest 9 10 < nearest 1 1 := by decide +kernel
  have bound := nearest_mono scale (by decide) tenths
  rw [reads, ← itself] at bound
  exact Nat.not_le.mpr less bound

/-- A whole number is the only decimal of so few significant digits that is read as it. -/
theorem eq_of_reads_whole {other otherPlaces : Nat}
    (reads : nearest other (10 ^ otherPlaces) = magnitude)
    (few : significantDigits other ≤ significantDigits whole) :
    other = whole * 10 ^ otherPlaces := by
  obtain ⟨front, zeros, rfl, short⟩ := significantDigits_le_iff.mp few
  have scale : 0 < 10 ^ otherPlaces := Nat.pow_pos (by decide)
  rcases Nat.lt_or_ge zeros otherPlaces with fraction | integral
  · rcases Nat.eq_zero_or_pos whole with rfl | positive
    · rw [Nat.lt_one_iff.mp short, Nat.zero_mul, Nat.zero_mul]
    · exact absurd reads (not_reads_whole finite small exact positive short fraction)
  · have split : front * 10 ^ zeros = front * 10 ^ (zeros - otherPlaces) * 10 ^ otherPlaces := by
      rw [Nat.mul_assoc, ← Nat.pow_add, Nat.sub_add_cancel integral]
    rw [split] at reads ⊢
    rw [eq_of_near_whole scale finite reads small exact]

end

/-! ## Texts -/

theorem decimalText_mul_pow (places whole : Nat) :
    decimalText places (whole * Nat.pow 10 places) = Nat.repr whole := by
  simp [decimalText]

/-- A text is a shortest decimal of a number, written out after its sign. -/
def ShowsShortest (number : Float) (shown : String) : Prop :=
  ∃ places decimal, shown = signText number ++ decimalText places decimal ∧
    IsShortest (magnitude number) places decimal

section

variable {number : Float} (finite : isFinite number = true)

include finite

theorem text_of_finite :
    text number = signText number ++
      decimalText (places (magnitude number)) (shortest (magnitude number)) := by
  simp [text, finite]

theorem showsShortest_text : ShowsShortest number (text number) :=
  ⟨_, _, text_of_finite finite, isShortest_shortest (of_decide_eq_true finite)⟩

variable {whole : Nat} (small : whole < 2 ^ 53)
  (exact : units (magnitude number) = whole * unitsPerOne)

include small exact

theorem text_of_whole : text number = signText number ++ Nat.repr whole := by
  rw [text_of_finite finite, shortest_whole (of_decide_eq_true finite) small exact]
  exact congrArg _ (decimalText_mul_pow _ whole)

/-- However a shortest decimal of a whole number is found, it is the whole number. -/
theorem eq_of_showsShortest {shown : String} (shows : ShowsShortest number shown) :
    shown = signText number ++ Nat.repr whole := by
  obtain ⟨places, decimal, rfl, shortest⟩ := shows
  have bound : magnitude number < infinite := of_decide_eq_true finite
  have reads : nearest whole (Nat.pow 10 0) = magnitude number :=
    nearest_whole bound exact
  have same := eq_of_reads_whole bound small exact shortest.reads (shortest.fewest 0 whole reads)
  rw [same]
  exact congrArg _ (decimalText_mul_pow places whole)

end

theorem lt_of_lt_wholeBound {magnitude whole : Nat} (finite : magnitude < infinite)
    (exact : units magnitude = whole * unitsPerOne) (below : magnitude < wholeBound) :
    whole < 9000000000000000 := by
  by_contra! large
  have bound := nearest_le_nearest large Nat.one_pos
  have itself := nearest_whole finite exact
  rw [itself] at bound
  exact Nat.not_le.mpr below bound

theorem jsonText_eq_text {number : Float} (finite : isFinite number = true) :
    jsonText number = text number := by
  have bound : magnitude number < infinite := of_decide_eq_true finite
  by_cases short : isWhole (magnitude number) && decide (magnitude number < wholeBound)
  · rcases Bool.and_eq_true_iff.mp short with ⟨isWhole, below⟩
    have divides : unitsPerOne ∣ units (magnitude number) :=
      Nat.dvd_of_mod_eq_zero (of_decide_eq_true isWhole)
    have exact := (Nat.div_mul_cancel divides).symm
    have small := lt_of_lt_wholeBound bound exact (of_decide_eq_true below)
    rw [text_of_whole finite (small.trans (by decide)) exact]
    simp [jsonText, finite, short]
  · simp [jsonText, finite, short]

/-- A finite number has the same text in JSON as everywhere, a shortest decimal. A whole number
below two to the power of fifty-three is written out exactly, and this is the only shortest decimal
that it has. -/
theorem json_shows_shortest {number : Float} (finite : isFinite number = true) :
    jsonText number = text number ∧ ShowsShortest number (text number) ∧
      ∀ whole, units (magnitude number) = whole * unitsPerOne → whole < 2 ^ 53 →
        jsonText number = signText number ++ Nat.repr whole ∧
          ∀ shown, ShowsShortest number shown → shown = signText number ++ Nat.repr whole := by
  refine ⟨jsonText_eq_text finite, showsShortest_text finite, ?_⟩
  intro whole exact small
  refine ⟨?_, fun shown => eq_of_showsShortest finite small exact⟩
  rw [jsonText_eq_text finite, text_of_whole finite small exact]

/-- The largest whole number below the bound of the short way, with a minus sign. -/
theorem json_shows_shortest_last :
    let number := ofRatio true 8999999999999999 1
    isFinite number = true ∧ jsonText number = "-8999999999999999" ∧
      jsonText number = text number ∧
      ∀ shown, ShowsShortest number shown → shown = "-8999999999999999" := by
  intro number
  have bound : nearest 8999999999999999 1 < infinite := by decide +kernel
  have same : magnitude number = nearest 8999999999999999 1 := magnitude_ofMagnitude true bound.le
  have finite : isFinite number = true := by
    rw [isFinite, same]
    exact decide_eq_true bound
  have exact : units (magnitude number) = 8999999999999999 * unitsPerOne := by
    rw [same]
    decide +kernel
  have sign : signText number = "-" := if_pos (isNegative_ofMagnitude true bound.le)
  obtain ⟨plain, _, whole⟩ := json_shows_shortest finite
  obtain ⟨written, only⟩ := whole _ exact (by decide)
  rw [sign] at written only
  exact ⟨finite, written, plain, only⟩

end RuleLisp.Number
