import RuleLisp.Number.Literal
import RuleLisp.Proofs.Number.Bits
import RuleLisp.Proofs.Number.Nearest

/-! # Decimal texts as literals

The text of a finite number is a numeric literal, and the number that this literal stands for is
the one that the text was made from.
-/

namespace RuleLisp.Number

/-! ## Rows of digits -/

theorem digitsValue_eq_ofDigitChars (digits : List Char) :
    digitsValue digits = Nat.ofDigitChars 10 digits 0 := by
  simp only [digitsValue, Nat.ofDigitChars_eq_foldl, Nat.mul_comm]

theorem digitsValue_append (digits others : List Char) :
    digitsValue (digits ++ others) =
      digitsValue digits * Nat.pow 10 others.length + digitsValue others := by
  simp only [digitsValue_eq_ofDigitChars, Nat.ofDigitChars_append, Nat.pow_eq]
  rw [Nat.ofDigitChars_eq_ofDigitChars_zero, Nat.mul_comm]

@[simp] theorem digitsValue_toDigits (number : Nat) :
    digitsValue (Nat.toDigits 10 number) = number := by
  rw [digitsValue_eq_ofDigitChars, Nat.ofDigitChars_ten_toDigits]

@[simp] theorem digitsValue_replicate_zero (count : Nat) :
    digitsValue (List.replicate count '0') = 0 := by
  rw [digitsValue_eq_ofDigitChars, Nat.ofDigitChars_replicate_zero, Nat.mul_zero]

theorem isDigit_of_mem_toDigits {number : Nat} {char : Char}
    (member : char ∈ Nat.toDigits 10 number) : isDigit char = true :=
  Nat.isDigit_of_mem_toDigits (by decide) (by decide) member

theorem isDigits_toDigits (number : Nat) : Literal.isDigits (Nat.toDigits 10 number) = true := by
  have digits : (Nat.toDigits 10 number).all isDigit = true :=
    List.all_eq_true.mpr fun _ member => isDigit_of_mem_toDigits member
  simp [Literal.isDigits, Nat.toDigits_ne_nil, digits]

/-! ## Digits after the point -/

/-- The digits after the point are all the places of the fraction up to some final zeros. -/
theorem exists_fractionDigits_append (places fraction : Nat) :
    ∃ zeros, fractionDigits places fraction ++ List.replicate zeros '0' =
      List.replicate (places - (Nat.toDigits 10 fraction).length) '0' ++
        Nat.toDigits 10 fraction := by
  let padded := List.replicate (places - (Nat.toDigits 10 fraction).length) '0' ++
    Nat.toDigits 10 fraction
  let final := padded.reverse.takeWhile (· = '0')
  have zeros : final = List.replicate final.length '0' := by
    refine List.eq_replicate_iff.mpr ⟨rfl, fun char member => ?_⟩
    simpa using List.all_eq_true.mp List.all_takeWhile char member
  refine ⟨final.length, ?_⟩
  have split : final ++ padded.reverse.dropWhile (· = '0') = padded.reverse :=
    List.takeWhile_append_dropWhile
  have reversed := congrArg List.reverse split
  rw [List.reverse_append, List.reverse_reverse, zeros, List.reverse_replicate] at reversed
  exact reversed

/-- The digits after the point say what the fraction is. -/
theorem fractionDigits_spec {places fraction : Nat} (bound : fraction < Nat.pow 10 places)
    (positive : fraction ≠ 0) :
    Literal.isDigits (fractionDigits places fraction) = true ∧
      ∃ zeros, (fractionDigits places fraction).length + zeros = places ∧
        digitsValue (fractionDigits places fraction) * Nat.pow 10 zeros = fraction := by
  rcases exists_fractionDigits_append places fraction with ⟨zeros, padded⟩
  have value : digitsValue (fractionDigits places fraction) * Nat.pow 10 zeros = fraction := by
    have equal := congrArg digitsValue padded
    simpa [digitsValue_append] using equal
  have nonempty : fractionDigits places fraction ≠ [] := by
    intro empty
    rw [empty] at value
    exact positive (value.symm.trans (Nat.zero_mul _))
  have somePlace : 0 < places := by
    rcases Nat.eq_zero_or_pos places with rfl | positivePlaces
    · exact absurd (Nat.lt_one_iff.mp bound) positive
    · exact positivePlaces
  have fits : (Nat.toDigits 10 fraction).length ≤ places :=
    (Nat.length_toDigits_le_iff (by decide) somePlace).mpr bound
  have lengths := congrArg List.length padded
  simp only [List.length_append, List.length_replicate] at lengths
  refine ⟨?_, zeros, by omega, value⟩
  have digits : (fractionDigits places fraction).all isDigit = true := by
    refine List.all_eq_true.mpr fun char member => ?_
    have kept : char ∈ fractionDigits places fraction ++ List.replicate zeros '0' :=
      List.mem_append_left _ member
    rw [padded] at kept
    rcases List.mem_append.mp kept with zero | digit
    · rw [List.eq_of_mem_replicate zero]
      decide
    · exact isDigit_of_mem_toDigits digit
  simp [Literal.isDigits, nonempty, digits]

theorem toList_decimalText_whole {places decimal : Nat}
    (zero : decimal % Nat.pow 10 places = 0) :
    (decimalText places decimal).toList = Nat.toDigits 10 (decimal / Nat.pow 10 places) := by
  simp only [decimalText, zero, if_true, Nat.toList_repr]

theorem toList_decimalText_point {places decimal : Nat}
    (positive : decimal % Nat.pow 10 places ≠ 0) :
    (decimalText places decimal).toList = Nat.toDigits 10 (decimal / Nat.pow 10 places) ++
      '.' :: fractionDigits places (decimal % Nat.pow 10 places) := by
  simp only [decimalText, positive, if_false, String.toList_append, Nat.toList_repr,
    String.toList_ofList, List.append_assoc]
  rfl

/-- A decimal is written as the digits before the point and those after it, if there are any, and
together they say what the decimal is. -/
theorem exists_fraction_decimalText (places decimal : Nat) :
    let whole := Nat.toDigits 10 (decimal / Nat.pow 10 places)
    ∃ fraction, (fraction = [] ∧ (decimalText places decimal).toList = whole ∨
        Literal.isDigits fraction = true ∧
          (decimalText places decimal).toList = whole ++ '.' :: fraction) ∧
      nearest (digitsValue (whole ++ fraction)) (Nat.pow 10 fraction.length) =
        nearest decimal (Nat.pow 10 places) := by
  intro whole
  have scale : 0 < Nat.pow 10 places := Nat.pow_pos (by decide)
  have split := Nat.div_add_mod' decimal (Nat.pow 10 places)
  by_cases zero : decimal % Nat.pow 10 places = 0
  · refine ⟨[], .inl ⟨rfl, toList_decimalText_whole zero⟩, ?_⟩
    rw [zero, Nat.add_zero] at split
    simp only [whole, List.append_nil, digitsValue_toDigits, List.length_nil]
    rw [← nearest_mul_right _ _ scale, split, Nat.pow_eq, Nat.pow_zero, Nat.one_mul]
  · rcases fractionDigits_spec (Nat.mod_lt decimal scale) zero with
      ⟨digits, zeros, length, fraction⟩
    refine ⟨_, .inr ⟨digits, toList_decimalText_point zero⟩, ?_⟩
    have zerosScale : 0 < Nat.pow 10 zeros := Nat.pow_pos (by decide)
    have powers : Nat.pow 10 (fractionDigits places (decimal % Nat.pow 10 places)).length *
        Nat.pow 10 zeros = Nat.pow 10 places :=
      (Nat.pow_add 10 _ zeros).symm.trans (congrArg (Nat.pow 10) length)
    simp only [whole, digitsValue_append, digitsValue_toDigits]
    rw [← nearest_mul_right _ _ zerosScale, Nat.add_mul, Nat.mul_assoc, powers, fraction, split]

/-! ## Reading back -/

namespace Literal

theorem isDigit_of_mem {text : List Char} (digits : isDigits text = true) {char : Char}
    (member : char ∈ text) : isDigit char = true :=
  List.all_eq_true.mp (Bool.and_eq_true_iff.mp digits).2 char member

theorem forall_ne_point_of_isDigits {text : List Char} (digits : isDigits text = true) :
    ∀ char ∈ text, decide (char ≠ '.') = true := by
  intro char member
  have digit := isDigit_of_mem digits member
  rw [decide_eq_true_eq]
  rintro rfl
  cases digit

theorem readUnsigned?_whole (negative : Bool) {whole : List Char}
    (digits : isDigits whole = true) :
    readUnsigned? negative whole = some ⟨negative, whole, []⟩ := by
  have noPoint := forall_ne_point_of_isDigits digits
  have taken : (whole ++ []).takeWhile (fun char => decide (char ≠ '.')) = whole ++ [] :=
    List.takeWhile_append_of_pos noPoint
  have dropped : (whole ++ []).dropWhile (fun char => decide (char ≠ '.')) = [] :=
    List.dropWhile_append_of_pos noPoint
  rw [List.append_nil] at taken dropped
  simp only [readUnsigned?, taken, dropped, digits, if_true]

theorem readUnsigned?_point (negative : Bool) {whole fraction : List Char}
    (digits : isDigits whole = true) (fractionDigits : isDigits fraction = true) :
    readUnsigned? negative (whole ++ '.' :: fraction) = some ⟨negative, whole, fraction⟩ := by
  have noPoint := forall_ne_point_of_isDigits digits
  have taken : (whole ++ '.' :: fraction).takeWhile (fun char => decide (char ≠ '.')) = whole := by
    rw [List.takeWhile_append_of_pos noPoint]
    simp
  have dropped : (whole ++ '.' :: fraction).dropWhile (fun char => decide (char ≠ '.')) =
      '.' :: fraction := by
    rw [List.dropWhile_append_of_pos noPoint]
    simp
  simp only [readUnsigned?, taken, dropped, digits, fractionDigits, Bool.and_self, if_true]

/-- A decimal that is written out is a literal for that decimal. -/
theorem exists_readUnsigned?_decimalText (negative : Bool) (places decimal : Nat) :
    ∃ literal, readUnsigned? negative (decimalText places decimal).toList = some literal ∧
      literal.value = ofRatio negative decimal (Nat.pow 10 places) := by
  have whole := isDigits_toDigits (decimal / Nat.pow 10 places)
  rcases exists_fraction_decimalText places decimal with
    ⟨fraction, ⟨rfl, text⟩ | ⟨digits, text⟩, value⟩
  · rw [text]
    exact ⟨_, readUnsigned?_whole negative whole, congrArg (ofMagnitude negative) value⟩
  · rw [text]
    exact ⟨_, readUnsigned?_point negative whole digits, congrArg (ofMagnitude negative) value⟩

theorem readUnsigned?_of_not_isDigit (negative : Bool) {first : Char}
    (notDigit : isDigit first = false) (text : List Char) :
    readUnsigned? negative (first :: text) = none := by
  have taken : isDigits ((first :: text).takeWhile (fun char => decide (char ≠ '.'))) = false := by
    by_cases point : first = '.' <;> simp [point, isDigits, notDigit]
  simp only [readUnsigned?, taken, Bool.false_and]
  split <;> rfl

theorem read?_of_readUnsigned? {text : List Char} {literal : Literal}
    (unsigned : readUnsigned? false text = some literal) : read? text = some literal := by
  unfold read?
  split
  · rw [readUnsigned?_of_not_isDigit false (by decide)] at unsigned
    cases unsigned
  · exact unsigned

/-- A literal without its sign is digits, or digits on both sides of a point. -/
theorem parts_of_readUnsigned? {negative : Bool} {text : List Char} {literal : Literal}
    (unsigned : readUnsigned? negative text = some literal) :
    isDigits literal.whole = true ∧
      (text = literal.whole ∨
        isDigits literal.fraction = true ∧ text = literal.whole ++ '.' :: literal.fraction) := by
  have split : text.takeWhile (fun char => decide (char ≠ '.')) ++
      text.dropWhile (fun char => decide (char ≠ '.')) = text :=
    List.takeWhile_append_dropWhile
  have point := List.head?_dropWhile_not (fun char => decide (char ≠ '.')) text
  simp only [readUnsigned?] at unsigned
  cases rest : text.dropWhile (fun char => decide (char ≠ '.')) with
  | nil =>
      rw [rest, List.append_nil] at split
      simp only [rest, Option.ite_none_right_eq_some, Option.some.injEq] at unsigned
      obtain ⟨digits, rfl⟩ := unsigned
      exact ⟨digits, .inl split.symm⟩
  | cons first fraction =>
      rw [rest] at split point
      simp only [rest, Option.ite_none_right_eq_some, Bool.and_eq_true, Option.some.injEq]
        at unsigned
      obtain ⟨⟨digits, fractionDigits⟩, rfl⟩ := unsigned
      have isPoint : first = '.' := by simpa using point
      rw [isPoint] at split
      exact ⟨digits, .inr ⟨fractionDigits, split.symm⟩⟩

theorem mem_of_readUnsigned? {negative : Bool} {text : List Char} {literal : Literal}
    (unsigned : readUnsigned? negative text = some literal) {char : Char} (member : char ∈ text) :
    isDigit char = true ∨ char = '.' := by
  obtain ⟨digits, rfl | ⟨fractionDigits, rfl⟩⟩ := parts_of_readUnsigned? unsigned
  · exact .inl (isDigit_of_mem digits member)
  · rcases List.mem_append.mp member with whole | after
    · exact .inl (isDigit_of_mem digits whole)
    · rcases List.mem_cons.mp after with point | after
      · exact .inr point
      · exact .inl (isDigit_of_mem fractionDigits after)

/-- The characters of a literal. -/
theorem mem_of_read? {text : List Char} {literal : Literal} (read : read? text = some literal)
    {char : Char} (member : char ∈ text) : isDigit char = true ∨ char = '.' ∨ char = '-' := by
  unfold read? at read
  split at read
  · rcases List.mem_cons.mp member with rfl | member
    · exact .inr (.inr rfl)
    · exact (mem_of_readUnsigned? read member).imp_right .inl
  · exact (mem_of_readUnsigned? read member).imp_right .inl

end Literal

/-- The text of a finite number is a literal for that number. -/
theorem exists_read?_text {number : Float} (finite : isFinite number = true) :
    ∃ literal, Literal.read? (text number).toList = some literal ∧ literal.value = number := by
  rcases Literal.exists_readUnsigned?_decimalText (isNegative number) (places (magnitude number))
    (shortest (magnitude number)) with ⟨literal, read, value⟩
  have bound : magnitude number < infinite := of_decide_eq_true finite
  refine ⟨literal, ?_, ?_⟩
  · simp only [text, finite, if_true, signText, String.toList_append]
    cases negative : isNegative number with
    | true =>
        rw [negative] at read
        exact read
    | false =>
        rw [negative] at read
        exact Literal.read?_of_readUnsigned? read
  · rw [value, ofRatio, nearest_shortest bound, ofMagnitude_magnitude]

end RuleLisp.Number
