import Mathlib.Computability.RegularExpressions
import RuleLisp.Proofs.Number.Decimal

/-! # The pattern of numeric literals

Numeric literals are the texts that match `-?[0-9]+(\.[0-9]+)?`. The pattern is a regular
expression, while a literal is read by taking off its sign and cutting the rest at its first point.
-/

namespace RuleLisp.Number

open RegularExpression

def digitPattern : RegularExpression Char :=
  ("0123456789".toList.map char).foldr plus zero

def digitsPattern : RegularExpression Char :=
  digitPattern * star digitPattern

/-- The pattern `-?[0-9]+(\.[0-9]+)?`. -/
def literalPattern : RegularExpression Char :=
  (1 + char '-') * (digitsPattern * (1 + char '.' * digitsPattern))

/-! ## Digits -/

theorem mem_matches_char {letter : Char} {text : List Char} :
    text ∈ (char letter).matches' ↔ text = [letter] :=
  Iff.rfl

theorem mem_matches_choice {letters text : List Char} :
    text ∈ ((letters.map char).foldr plus zero).matches' ↔
      ∃ letter ∈ letters, text = [letter] := by
  induction letters with
  | nil => simp
  | cons first rest induction =>
      rw [List.map_cons, List.foldr_cons, plus_def, matches'_add, Language.mem_add, induction,
        mem_matches_char, List.exists_mem_cons_iff]

theorem isDigit_iff {digit : Char} : isDigit digit = true ↔ digit ∈ "0123456789".toList := by
  constructor
  · intro isDigit
    simp only [Number.isDigit, Bool.and_eq_true, decide_eq_true_eq, Char.le_def,
      UInt32.le_iff_toNat_le] at isDigit
    have low : 48 ≤ digit.toNat := isDigit.1
    have high : digit.toNat ≤ 57 := isDigit.2
    rw [← Char.ofNat_toNat digit]
    generalize digit.toNat = code at low high
    interval_cases code <;> decide
  · have digits : "0123456789".toList.all isDigit = true := by decide
    exact List.all_eq_true.mp digits digit

theorem mem_matches_digitPattern {text : List Char} :
    text ∈ digitPattern.matches' ↔ ∃ digit, isDigit digit = true ∧ text = [digit] := by
  rw [digitPattern, mem_matches_choice]
  simp only [isDigit_iff]

theorem mem_matches_star_digitPattern {text : List Char} :
    text ∈ (star digitPattern).matches' ↔ text.all isDigit = true := by
  rw [matches'_star, Language.mem_kstar, List.all_eq_true]
  constructor
  · rintro ⟨parts, rfl, digits⟩ char member
    obtain ⟨part, inside, member⟩ := List.mem_flatten.mp member
    obtain ⟨digit, isDigit, rfl⟩ := mem_matches_digitPattern.mp (digits part inside)
    rw [List.mem_singleton.mp member]
    exact isDigit
  · intro digits
    refine ⟨text.map ([·]), ?_, ?_⟩
    · rw [← List.flatMap_def]
      exact (List.flatMap_singleton' text).symm
    · intro part inside
      obtain ⟨digit, member, rfl⟩ := List.mem_map.mp inside
      exact mem_matches_digitPattern.mpr ⟨digit, digits digit member, rfl⟩

theorem mem_matches_digitsPattern {text : List Char} :
    text ∈ digitsPattern.matches' ↔ Literal.isDigits text = true := by
  rw [digitsPattern, matches'_mul, Language.mem_mul]
  constructor
  · rintro ⟨front, first, rest, others, rfl⟩
    obtain ⟨digit, isDigit, rfl⟩ := mem_matches_digitPattern.mp first
    have digits := mem_matches_star_digitPattern.mp others
    rw [Literal.isDigits, List.all_append, digits, List.all_cons, isDigit]
    rfl
  · intro digits
    cases text with
    | nil => cases digits
    | cons first rest =>
        have all := Bool.and_eq_true_iff.mp (Bool.and_eq_true_iff.mp digits).2
        exact ⟨[first], mem_matches_digitPattern.mpr ⟨first, all.1, rfl⟩, rest,
          mem_matches_star_digitPattern.mpr all.2, rfl⟩

/-! ## Literals -/

theorem mem_matches_optional {pattern : RegularExpression Char} {text : List Char} :
    text ∈ (1 + pattern).matches' ↔ text = [] ∨ text ∈ pattern.matches' :=
  Iff.rfl

/-- What follows the sign of the pattern is a literal without its sign. -/
theorem mem_matches_unsigned (negative : Bool) {text : List Char} :
    text ∈ (digitsPattern * (1 + char '.' * digitsPattern)).matches' ↔
      (Literal.readUnsigned? negative text).isSome = true := by
  rw [matches'_mul, Language.mem_mul]
  constructor
  · rintro ⟨whole, wholeMatches, after, afterMatches, rfl⟩
    have digits := mem_matches_digitsPattern.mp wholeMatches
    rcases mem_matches_optional.mp afterMatches with rfl | afterMatches
    · rw [List.append_nil, Literal.readUnsigned?_whole negative digits]
      rfl
    · rcases Language.mem_mul.mp afterMatches with ⟨_, rfl, fraction, fractionMatches, rfl⟩
      have fractionDigits := mem_matches_digitsPattern.mp fractionMatches
      exact Option.isSome_of_eq_some
        (Literal.readUnsigned?_point negative digits fractionDigits)
  · intro isSome
    rcases Option.isSome_iff_exists.mp isSome with ⟨literal, read⟩
    rcases Literal.parts_of_readUnsigned? read with ⟨digits, after⟩
    refine ⟨literal.whole, mem_matches_digitsPattern.mpr digits, ?_⟩
    rcases after with rfl | ⟨fractionDigits, rfl⟩
    · exact ⟨[], mem_matches_optional.mpr (.inl rfl), List.append_nil _⟩
    · exact ⟨'.' :: literal.fraction, mem_matches_optional.mpr (.inr (Language.mem_mul.mpr
        ⟨['.'], rfl, literal.fraction, mem_matches_digitsPattern.mpr fractionDigits, rfl⟩)), rfl⟩

/-- The literals are the texts that match the pattern. -/
theorem isNumeric_iff {text : List Char} :
    isNumeric text = true ↔ text ∈ literalPattern.matches' := by
  rw [literalPattern, matches'_mul, Language.mem_mul, isNumeric]
  constructor
  · intro isSome
    unfold Literal.read? at isSome
    split at isSome
    · exact ⟨['-'], mem_matches_optional.mpr (.inr rfl), _,
        (mem_matches_unsigned true).mpr isSome, rfl⟩
    · exact ⟨[], mem_matches_optional.mpr (.inl rfl), _,
        (mem_matches_unsigned false).mpr isSome, rfl⟩
  · rintro ⟨sign, signMatches, unsigned, unsignedMatches, rfl⟩
    rcases mem_matches_optional.mp signMatches with rfl | rfl
    · rcases Option.isSome_iff_exists.mp ((mem_matches_unsigned false).mp unsignedMatches) with
        ⟨literal, read⟩
      exact Option.isSome_of_eq_some (Literal.read?_of_readUnsigned? read)
    · exact (mem_matches_unsigned true).mp unsignedMatches

end RuleLisp.Number
