import Mathlib.Data.List.Basic
import RuleLisp.Atom
import RuleLisp.Proofs.Number.Decimal
import RuleLisp.Proofs.Token

/-! # Words and atoms

Apart from numbers, an atom is written as the word that it was read from. A number is written as a
literal that reads back as the same number, unless it is infinite: then the word is a symbol.
-/

namespace RuleLisp

namespace Atom

/-! ## The word of an accepted atom -/

theorem render_of_ofQuoted? {word : String} {rest : List Char} {atom : Atom}
    (starts : word.toList = '"' :: rest) (accepted : ofQuoted? word rest = some atom) :
    atom.render = word ∧ ∀ value, atom ≠ .number value := by
  unfold ofQuoted? at accepted
  split at accepted
  · cases accepted
  split at accepted
  · next quoted =>
      rcases quoted with ⟨last, _⟩
      cases accepted
      refine ⟨String.toList_inj.mp ?_, nofun⟩
      have restored : rest.dropLast ++ ['"'] = rest :=
        List.dropLast_append_getLast? '"' (by simp [last])
      simp [render, starts, restored]
  · cases accepted
    exact ⟨rfl, nofun⟩

/-- An accepted word is the word of its atom, unless it is a numeric literal. -/
theorem render_or_literal_of_ofWord? {word : String} {atom : Atom}
    (accepted : ofWord? word = some atom) :
    (atom.render = word ∧ ∀ value, atom ≠ .number value) ∨
      ∃ literal, Number.Literal.read? word.toList = some literal ∧
        atom = .number literal.value := by
  unfold ofWord? at accepted
  split at accepted
  · next same => cases accepted; exact .inl ⟨same.symm, nofun⟩
  split at accepted
  · next same => cases accepted; exact .inl ⟨same.symm, nofun⟩
  split at accepted
  · next same => cases accepted; exact .inl ⟨same.symm, nofun⟩
  split at accepted
  · next literal read => cases accepted; exact .inr ⟨literal, read, rfl⟩
  unfold ofText? at accepted
  split at accepted
  · next rest starts => exact .inl (render_of_ofQuoted? starts accepted)
  · cases accepted
    exact .inl ⟨rfl, nofun⟩

/-- A word that is a symbol is the name of that symbol. -/
theorem eq_of_ofWord?_eq_symbol {word name : String}
    (accepted : ofWord? word = some (.symbol name)) : name = word := by
  rcases render_or_literal_of_ofWord? accepted with ⟨same, _⟩ | ⟨_, _, impossible⟩
  · exact same
  · cases impossible

/-! ## Words of known atoms -/

theorem ofWord?_of_read? {word : String} {literal : Number.Literal}
    (read : Number.Literal.read? word.toList = some literal) :
    ofWord? word = some (.number literal.value) := by
  have different {other : String} (unread : Number.Literal.read? other.toList = none) :
      word ≠ other := by
    rintro rfl
    rw [read] at unread
    cases unread
  rw [ofWord?, if_neg (different (by decide)), if_neg (different (by decide)),
    if_neg (different (by decide)), read]

theorem ofWord?_of_not_read? {word : String} (notTrue : word ≠ "true") (notFalse : word ≠ "false")
    (notNull : word ≠ "null") (unread : Number.Literal.read? word.toList = none) :
    ofWord? word = ofText? word := by
  rw [ofWord?, if_neg notTrue, if_neg notFalse, if_neg notNull, unread]

theorem ofText?_of_head?_ne {word : String} (bare : word.toList.head? ≠ some '"') :
    ofText? word = some (.symbol word) := by
  unfold ofText?
  split
  · next starts => exact absurd (by rw [starts, List.head?_cons]) bare
  · rfl

/-- A quoted text is a string, if it has no further quotation mark in it. -/
theorem ofWord?_quoted {text : String} (unmarked : '"' ∉ text.toList) :
    ofWord? ("\"" ++ text ++ "\"") = some (.string text) := by
  have chars : ("\"" ++ text ++ "\"").toList = '"' :: (text.toList ++ ['"']) := by simp
  have different {other : String} (bare : other.toList.head? ≠ some '"') :
      "\"" ++ text ++ "\"" ≠ other := by
    rintro rfl
    rw [chars] at bare
    exact bare rfl
  have unread : Number.Literal.read? ("\"" ++ text ++ "\"").toList = none := by
    rw [chars]
    exact Number.Literal.readUnsigned?_of_not_isDigit false (by decide) _
  rw [ofWord?_of_not_read? (different (by decide)) (different (by decide))
    (different (by decide)) unread]
  simp [ofText?, chars, ofQuoted?, unmarked]

/-! ## Infinite numbers -/

def isInfinite : Atom → Bool
  | number value => Number.magnitude value = Number.infinite
  | _ => false

/-- The atom with an infinite number replaced by the symbol that it is written as. -/
def nameInfinite : Atom → Atom
  | number value =>
      if Number.magnitude value = Number.infinite then
        .symbol (if Number.isNegative value then "-inf" else "inf")
      else .number value
  | word => word

theorem nameInfinite_eq_self_iff {atom : Atom} :
    atom.nameInfinite = atom ↔ atom.isInfinite = false := by
  cases atom with
  | number value =>
      by_cases infinite : Number.magnitude value = Number.infinite <;>
        simp [nameInfinite, isInfinite, infinite]
  | null | bool | string | symbol => simp [nameInfinite, isInfinite]

theorem magnitude_value_le (literal : Number.Literal) :
    Number.magnitude literal.value ≤ Number.infinite := by
  have bound := Number.nearest_le_infinite
    (Number.digitsValue (literal.whole ++ literal.fraction))
    (Nat.pow 10 literal.fraction.length)
  rw [Number.Literal.value, Number.ofRatio, Number.magnitude_ofMagnitude _ bound]
  exact bound

theorem text_of_infinite {value : Float} (infinite : Number.magnitude value = Number.infinite) :
    Number.text value = if Number.isNegative value then "-inf" else "inf" := by
  have notFinite : Number.isFinite value = false := by
    simp [Number.isFinite, infinite]
  cases negative : Number.isNegative value <;>
    simp [Number.text, notFinite, infinite, Number.signText, negative]

/-- The word of a literal's number is again a literal for it, or names an infinite number. -/
theorem read?_or_infinite (literal : Number.Literal) :
    (∃ other, Number.Literal.read? (Number.text literal.value).toList = some other ∧
        other.value = literal.value ∧ Number.magnitude literal.value ≠ Number.infinite) ∨
      Number.magnitude literal.value = Number.infinite := by
  rcases Nat.lt_or_eq_of_le (magnitude_value_le literal) with finite | infinite
  · rcases Number.exists_read?_text (decide_eq_true finite) with ⟨other, read, value⟩
    exact .inl ⟨other, read, value, Nat.ne_of_lt finite⟩
  · exact .inr infinite

/-! ## Reading a written atom -/

/-- The word of an accepted atom is accepted, and infinite numbers have become symbols. -/
theorem ofWord?_render {word : String} {atom : Atom} (accepted : ofWord? word = some atom) :
    ofWord? atom.render = some atom.nameInfinite := by
  rcases render_or_literal_of_ofWord? accepted with ⟨same, notNumber⟩ | ⟨literal, _, rfl⟩
  · have kept : atom.nameInfinite = atom := by
      cases atom with
      | number value => exact absurd rfl (notNumber value)
      | null | bool | string | symbol => rfl
    rw [same, kept]
    exact accepted
  · rcases read?_or_infinite literal with ⟨other, read, value, finite⟩ | infinite
    · rw [nameInfinite, if_neg finite, ← value]
      exact ofWord?_of_read? (value ▸ read)
    · rw [render, nameInfinite, if_pos infinite, text_of_infinite infinite]
      split <;> rfl

theorem not_special_of_isDigit {char : Char} (digit : Number.isDigit char = true) :
    char ≠ '"' ∧ Lexeme.bracket? char = none ∧ Text.isBlank char = false := by
  have different {other : Char} (notDigit : Number.isDigit other = false) : char ≠ other := by
    rintro rfl
    rw [digit] at notDigit
    cases notDigit
  refine ⟨different (by decide), ?_, ?_⟩
  · rw [Lexeme.bracket?, if_neg (different (by decide)), if_neg (different (by decide)),
      if_neg (different (by decide)), if_neg (different (by decide))]
  · simp only [Number.isDigit, Bool.and_eq_true, decide_eq_true_eq, Char.le_def,
      UInt32.le_iff_toNat_le] at digit
    have low : 48 ≤ char.toNat := digit.1
    have high : char.toNat ≤ 57 := digit.2
    simp only [Text.isBlank, Text.blankRanges, List.any_cons, List.any_nil, Bool.or_false,
      Bool.or_eq_false_iff, Bool.and_eq_false_iff, decide_eq_false_iff_not]
    omega

theorem spells_of_read? {word : String} {literal : Number.Literal}
    (read : Number.Literal.read? word.toList = some literal) : Spells word [.word word] := by
  apply Spells.plain
  · rintro rfl
    cases read
  · intro char member
    rcases Number.Literal.mem_of_read? read member with digit | rfl | rfl
    · exact not_special_of_isDigit digit
    · decide
    · decide

/-- The word of an accepted atom is a word of its own, or the word that was accepted. -/
theorem spells_render_or_eq {word : String} {atom : Atom} (accepted : ofWord? word = some atom) :
    Spells atom.render [.word atom.render] ∨ atom.render = word := by
  rcases render_or_literal_of_ofWord? accepted with ⟨same, _⟩ | ⟨literal, _, rfl⟩
  · exact .inr same
  · refine .inl ?_
    rcases read?_or_infinite literal with ⟨other, read, _, _⟩ | infinite
    · exact spells_of_read? read
    · rw [render, text_of_infinite infinite]
      split
      · exact .of_ofChars (by decide) (by decide)
      · exact .of_ofChars (by decide) (by decide)

end Atom

end RuleLisp
