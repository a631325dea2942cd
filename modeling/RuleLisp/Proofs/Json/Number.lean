import RuleLisp.Proofs.Json.Reader

/-! # Numbers in JSON

A finite number is written as a numeral, and the number nearest to that numeral is the one that was
written.
-/

namespace RuleLisp

namespace Number

/-- The text of a finite number is a decimal that the number is nearest to. -/
theorem exists_jsonText_eq {number : Float} (finite : isFinite number = true) :
    ∃ places decimal, jsonText number = signText number ++ decimalText places decimal ∧
      nearest decimal (Nat.pow 10 places) = magnitude number := by
  have bound : magnitude number < infinite := of_decide_eq_true finite
  by_cases small : isWhole (magnitude number) && decide (magnitude number < wholeBound)
  · have whole : units (magnitude number) % unitsPerOne = 0 :=
      of_decide_eq_true (Bool.and_eq_true_iff.mp small).1
    refine ⟨0, units (magnitude number) / unitsPerOne, ?_, ?_⟩
    · simp [jsonText, finite, small, decimalText, Nat.mod_one]
    · apply nearest_of_eq_units bound Nat.zero_lt_one
      rw [Nat.div_mul_cancel (Nat.dvd_of_mod_eq_zero whole), Nat.mul_one]
  · refine ⟨places (magnitude number), shortest (magnitude number), ?_, nearest_shortest bound⟩
    simp [jsonText, finite, small, text]

theorem eq_zero_of_head?_toDigits {number : Nat}
    (zero : (Nat.toDigits 10 number).head? = some '0') : number = 0 := by
  induction number using Nat.strongRecOn with
  | ind number induction =>
      rcases Nat.lt_or_ge number 10 with digit | more
      · have value := digitsValue_toDigits number
        rw [Nat.toDigits_of_lt_base digit] at zero value
        rw [Option.some.inj zero] at value
        exact value.symm
      · rw [Nat.toDigits_of_base_le (by decide) more, List.head?_append_of_ne_nil _
          Nat.toDigits_ne_nil] at zero
        have leading := induction (number / 10) (by omega) zero
        omega

end Number

namespace Json.Numeral

/-- A text stands for at most one numeral. -/
theorem Writes.unique {numeral other : Numeral} {text : List Char} (written : numeral.Writes text)
    (otherWritten : other.Writes text) : numeral = other := by
  have read := readNumeral?_append written (show Follows [] from nofun)
  rw [readNumeral?_append otherWritten (show Follows [] from nofun)] at read
  exact (congrArg Prod.fst (Option.some.inj read)).symm

theorem isWhole_toDigits (number : Nat) : IsWhole (Nat.toDigits 10 number) where
  digits := Number.isDigits_toDigits number
  zero first := by
    rw [Number.eq_zero_of_head?_toDigits first]
    rfl

def nearest? (numeral : Numeral) : Option Float :=
  let digits := Number.digitsValue (numeral.whole ++ numeral.fraction)
  let magnitude := Number.nearest (digits * Nat.pow 10 numeral.exponent.toNat)
    (Nat.pow 10 (numeral.fraction.length + (-numeral.exponent).toNat))
  if magnitude < Number.infinite then some (Number.ofMagnitude numeral.negative magnitude)
  else none

theorem nearest?_of_nearest {negative : Bool} {whole fraction : List Char} {magnitude : Nat}
    (near : Number.nearest (Number.digitsValue (whole ++ fraction)) (Nat.pow 10 fraction.length) =
      magnitude) (finite : magnitude < Number.infinite) :
    nearest? ⟨negative, whole, fraction, 0⟩ = some (Number.ofMagnitude negative magnitude) := by
  have scaled : Number.nearest
      (Number.digitsValue (whole ++ fraction) * Nat.pow 10 (0 : Int).toNat)
      (Nat.pow 10 (fraction.length + (-0 : Int).toNat)) = magnitude := by
    simpa using near
  simp only [nearest?, scaled, if_pos finite]

/-- The text of a finite number is a numeral that the number is nearest to. -/
theorem exists_writes_jsonText {number : Float} (finite : Number.isFinite number = true) :
    ∃ numeral : Numeral, numeral.Writes (Number.jsonText number).toList ∧
      numeral.nearest? = some number := by
  rcases Number.exists_jsonText_eq finite with ⟨places, decimal, text, near⟩
  rcases Number.exists_fraction_decimalText places decimal with ⟨fraction, parts, value⟩
  have isWhole := isWhole_toDigits (decimal / Nat.pow 10 places)
  generalize Nat.toDigits 10 (decimal / Nat.pow 10 places) = whole at parts value isWhole
  have sign : (Number.signText number).toList = signText (Number.isNegative number) := by
    unfold Number.signText signText
    split <;> rfl
  refine ⟨⟨Number.isNegative number, whole, fraction, 0⟩, ?_, ?_⟩
  · rw [text, String.toList_append, sign]
    rcases parts with ⟨rfl, written⟩ | ⟨digits, written⟩
    · have writes := Writes.mk (Number.isNegative number) isWhole .absent .absent
      rw [written]
      rwa [List.append_nil, List.append_nil] at writes
    · have writes := Writes.mk (Number.isNegative number) isWhole (.present digits) .absent
      rw [written]
      rwa [List.append_nil] at writes
  · rw [nearest?_of_nearest (value.trans near) (of_decide_eq_true finite),
      Number.ofMagnitude_magnitude]

/-- However the text of a finite number is taken as a numeral, the number is nearest to it. -/
theorem nearest?_of_writes {number : Float} (finite : Number.isFinite number = true)
    {numeral : Numeral} (written : numeral.Writes (Number.jsonText number).toList) :
    numeral.nearest? = some number := by
  rcases exists_writes_jsonText finite with ⟨other, otherWritten, near⟩
  rw [written.unique otherWritten, near]

end Json.Numeral

end RuleLisp
