import Mathlib.Data.List.Basic
import RuleLisp.Proofs.Expr.Relocation
import RuleLisp.Proofs.Token

/-! # Layout

Blanks between tokens only keep words apart. The texts of the tokens say what a source is, however
they are laid out: they can be joined with single spaces and scanned again, and two sources with
the same texts are read alike.
-/

namespace RuleLisp

namespace Lexeme

variable {source : String} {lexeme : Lexeme}

theorem spells_of_isBracket (bracket : lexeme.isBracket = true) : Spells lexeme.text [lexeme] := by
  cases lexeme with
  | opening shape => cases shape <;> exact .of_ofChars (by decide) (by decide)
  | closing shape => cases shape <;> exact .of_ofChars (by decide) (by decide)
  | word text => cases bracket

theorem spells_text_of_mem_dropLast (member : lexeme ∈ (scan source).dropLast) :
    Spells lexeme.text [lexeme] := by
  cases lexeme with
  | opening | closing => exact spells_of_isBracket rfl
  | word text => exact spells_of_mem_dropLast_scan member

theorem scan_text_of_mem (member : lexeme ∈ scan source) : scan lexeme.text = [lexeme] := by
  cases lexeme with
  | opening | closing => exact (spells_of_isBracket rfl).scanned
  | word text => exact scan_of_mem_scan member

/-- Texts joined with single spaces are scanned apart. Only the last of them may leave a quotation
mark open, since it has no other text after it. -/
theorem scan_intercalate {lexemes : List Lexeme}
    (alone : ∀ lexeme ∈ lexemes, scan lexeme.text = [lexeme])
    (balanced : ∀ lexeme ∈ lexemes.dropLast, IsBalanced lexeme.text) :
    scan (" ".intercalate (lexemes.map text)) = lexemes := by
  induction lexemes with
  | nil => exact Spells.empty.scanned
  | cons first rest induction =>
      rw [List.forall_mem_cons] at alone
      cases rest with
      | nil =>
          rw [List.map_singleton, String.intercalate_singleton]
          exact alone.1
      | cons second rest =>
          rw [List.dropLast_cons_cons, List.forall_mem_cons] at balanced
          have others := induction alone.2 balanced.2
          rw [List.map_cons] at others
          rw [List.map_cons, List.map_cons, String.intercalate_cons_cons, scan_spaced balanced.1,
            alone.1, others]
          rfl

/-- The texts of a source say which lexemes it has. -/
theorem flatMap_scan_texts (source : String) :
    ((scan source).map text).flatMap scan = scan source := by
  rw [List.flatMap_map]
  calc (scan source).flatMap (fun lexeme => scan lexeme.text)
      = (scan source).flatMap (fun lexeme => [lexeme]) :=
        List.flatMap_congr fun _ member => scan_text_of_mem member
    _ = scan source := List.flatMap_singleton' _

end Lexeme

/-! ## Reading -/

namespace Expr

/-- The same expressions, or the same error at any place. -/
inductive ReadsAlike : Except ParseError (List Expr) → Except ParseError (List Expr) → Prop
  | ok (exprs : List Expr) : ReadsAlike (.ok exprs) (.ok exprs)
  | error (error : ParseError) (span : Span) :
      ReadsAlike (.error error) (.error (error.relocate fun _ => span))

theorem readsAlike_of_mapError_eq (place : Span) {answer other : Except ParseError (List Expr)}
    (same : answer.mapError (ParseError.relocate fun _ => place) =
      other.mapError (ParseError.relocate fun _ => place)) : ReadsAlike answer other := by
  cases answer with
  | ok exprs =>
      cases other with
      | ok others =>
          cases same
          exact .ok exprs
      | error error => cases same
  | error error =>
      cases other with
      | ok others => cases same
      | error twin =>
          have moved := Except.error.inj same
          have twin_eq : twin = error.relocate fun _ => twin.span := by
            calc twin
                = twin.relocate fun _ => twin.span := twin.relocate_own_span.symm
              _ = (twin.relocate fun _ => place).relocate fun _ => twin.span :=
                (twin.relocate_const_relocate _ _).symm
              _ = (error.relocate fun _ => place).relocate fun _ => twin.span := by rw [moved]
              _ = error.relocate fun _ => twin.span := error.relocate_const_relocate _ _
          rw [twin_eq]
          exact .error error twin.span

theorem readAll_readsAlike (limit size otherSize : Nat) {tokens others : List Token}
    (same : tokens.map Token.lexeme = others.map Token.lexeme) :
    ReadsAlike (readAll limit size tokens) (readAll limit otherSize others) := by
  -- With all their spans moved to one place, both rows of tokens are the same.
  let move : Span → Span := fun _ => .point 0
  have merges : ∀ left right, (move left).merge (move right) = move (left.merge right) :=
    fun _ _ => rfl
  have relocated : tokens.map (Token.relocate move) = others.map (Token.relocate move) := by
    have moved (row : List Token) : row.map (Token.relocate move) =
        (row.map Token.lexeme).map fun lexeme => ⟨lexeme, .point 0⟩ := by
      rw [List.map_map]
      rfl
    rw [moved, moved, same]
  have ends (size : Nat) : Span.point 0 = move (.point size) := rfl
  apply readsAlike_of_mapError_eq (.point 0)
  rw [← readAll_relocate limit merges (ends size), ← readAll_relocate limit merges (ends otherSize),
    relocated]

theorem parse_readsAlike (limit : Nat) {source other : String}
    (same : Lexeme.scan source = Lexeme.scan other) :
    ReadsAlike (parse limit source) (parse limit other) := by
  rw [parse_eq_readAll, parse_eq_readAll]
  exact readAll_readsAlike limit _ _ same

/-- A source that is laid out anew has the same lexemes. Sources whose tokens have the same texts
are read as the same expressions, or fail for the same reason. -/
theorem layout_does_not_matter (source : String) (limit : Nat) :
    let respaced := " ".intercalate ((Token.scan source).map fun token => token.lexeme.text)
    (Token.scan respaced).map Token.lexeme = (Token.scan source).map Token.lexeme ∧
    ReadsAlike (parse limit source) (parse limit respaced) ∧
    ∀ other, ((Token.scan other).map fun token => token.lexeme.text) =
        ((Token.scan source).map fun token => token.lexeme.text) →
      ReadsAlike (parse limit source) (parse limit other) := by
  intro respaced
  have texts (source : String) : ((Token.scan source).map fun token => token.lexeme.text) =
      (Lexeme.scan source).map Lexeme.text := by
    rw [Lexeme.scan, List.map_map]
    rfl
  have rescanned : Lexeme.scan respaced = Lexeme.scan source := by
    simp only [respaced, texts]
    apply Lexeme.scan_intercalate
    · intro lexeme member
      exact Lexeme.scan_text_of_mem member
    · intro lexeme member
      exact (Lexeme.spells_text_of_mem_dropLast member).balanced
  refine ⟨rescanned, parse_readsAlike limit rescanned.symm, ?_⟩
  intro other same
  rw [texts, texts] at same
  have lexemes : Lexeme.scan source = Lexeme.scan other := by
    rw [← Lexeme.flatMap_scan_texts source, ← Lexeme.flatMap_scan_texts other, same]
  exact parse_readsAlike limit lexemes

/-- Two ways to lay out a list that is not closed. The string keeps its blanks, and the end of the
source is at another place. -/
theorem layout_does_not_matter_unclosed :
    let source := "(f \"a  b\"(g\tx)\n"
    let other := "( f\n\n\"a  b\" ( g x )"
    ((Token.scan other).map fun token => token.lexeme.text) =
        ((Token.scan source).map fun token => token.lexeme.text) ∧
      parse 2 source = .error (.unexpectedEnd ')' (.point 15)) ∧
      parse 2 other = .error (.unexpectedEnd ')' (.point 19)) ∧
      ReadsAlike (parse 2 source) (parse 2 other) := by
  intro source other
  have same : ((Token.scan other).map fun token => token.lexeme.text) =
      ((Token.scan source).map fun token => token.lexeme.text) := by
    rw [Token.scan_eq_ofChars, Token.scan_eq_ofChars]
    decide +kernel
  have failed : parse 2 source = .error (.unexpectedEnd ')' (.point 15)) := by
    rw [parse_eq_readAll, Token.scan_eq_ofChars]
    unfold source
    rfl
  have otherFailed : parse 2 other = .error (.unexpectedEnd ')' (.point 19)) := by
    rw [parse_eq_readAll, Token.scan_eq_ofChars]
    unfold other
    rfl
  exact ⟨same, failed, otherFailed, (layout_does_not_matter source 2).2.2 other same⟩

end Expr

end RuleLisp
