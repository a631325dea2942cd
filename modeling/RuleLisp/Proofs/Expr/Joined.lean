import RuleLisp.Proofs.Expr.Relocation
import RuleLisp.Proofs.Token

/-! # Reading a source in parts

A source can be read line by line. What has been read of the first lines stays the same whatever
follows them, and a later line is read as if it stood alone, with every place counted from the start
of the whole source. Only one error may go away when more text comes: the unexpected end.
-/

namespace RuleLisp

/-! ## Errors in a later part of a source -/

namespace ParseError

def shift (distance : Nat) : ParseError → ParseError :=
  relocate (Span.shift distance)

def isUnexpectedEnd : ParseError → Bool
  | unexpectedEnd .. => true
  | _ => false

theorem code_shift (distance : Nat) (error : ParseError) :
    (error.shift distance).code = error.code :=
  error.code_relocate _

theorem message_shift (distance : Nat) (error : ParseError) :
    (error.shift distance).message = error.message :=
  error.message_relocate _

end ParseError

theorem Span.merge_shift (distance : Nat) (left right : Span) :
    (left.shift distance).merge (right.shift distance) = (left.merge right).shift distance := by
  simp only [merge, shift, Nat.add_min_add_left, Nat.add_max_add_left]

/-! ## Reading tokens in a later part of a source -/

namespace Expr

variable (limit : Nat)

theorem readAll_shift (distance size : Nat) (tokens : List Token) :
    readAll limit (distance + size) (tokens.map (Token.shift distance)) =
      (readAll limit size tokens).mapError (ParseError.shift distance) :=
  readAll_relocate limit (Span.merge_shift distance) rfl tokens

/-- The finished expressions come first in the result and change nothing else. -/
theorem readAllOn_finished (size : Nat) (opened : Open) (finished earlier : List Expr)
    (tokens : List Token) :
    readAllOn limit size opened (finished ++ earlier) tokens =
      (readAllOn limit size opened finished tokens).map (earlier.reverse ++ ·) := by
  induction tokens generalizing opened finished with
  | nil =>
      cases opened with
      | nothing => simp [readAllOn, Except.map]
      | bracket inside outer => rfl
  | cons token rest induction =>
      rw [readAllOn, readAllOn]
      cases ReadStep.next limit opened token with
      | more inside outer => exact induction (.bracket inside outer) finished
      | done expr => exact induction .nothing (expr :: finished)
      | wrong error unread => rfl

/-! ## Reading on -/

theorem readAllOn_append_of_ok {size : Nat} {opened : Open} {finished exprs : List Expr}
    {tokens : List Token} (read : readAllOn limit size opened finished tokens = .ok exprs)
    (more : Nat) (rest : List Token) :
    readAllOn limit more opened finished (tokens ++ rest) =
      readAllOn limit more .nothing exprs.reverse rest := by
  induction tokens generalizing opened finished with
  | nil =>
      cases opened with
      | nothing =>
          cases read
          rw [List.reverse_reverse, List.nil_append]
      | bracket inside outer => cases read
  | cons token tokens induction =>
      rw [readAllOn] at read
      rw [List.cons_append, readAllOn]
      revert read
      cases ReadStep.next limit opened token with
      | more inside outer => exact induction
      | done expr => exact induction
      | wrong error unread =>
          intro read
          cases read

/-- An error that is found before the tokens end does not depend on how many more there are. -/
theorem readAllOn_append_of_error {size : Nat} {opened : Open} {finished : List Expr}
    {tokens : List Token} {error : ParseError}
    (failed : readAllOn limit size opened finished tokens = .error error)
    (found : error.isUnexpectedEnd = false) (more : Nat) (rest : List Token) :
    readAllOn limit more opened finished (tokens ++ rest) = .error error := by
  induction tokens generalizing opened finished with
  | nil =>
      cases opened with
      | nothing => cases failed
      | bracket inside outer =>
          cases failed
          cases found
  | cons token tokens induction =>
      rw [readAllOn] at failed
      rw [List.cons_append, readAllOn]
      revert failed
      cases ReadStep.next limit opened token with
      | more inside outer => exact induction
      | done expr => exact induction
      | wrong other unread =>
          intro failed
          cases failed
          rfl

/-- The number of bytes is looked at only where the tokens end too early. -/
theorem readAll_size_of_ok {size : Nat} {tokens : List Token} {exprs : List Expr}
    (read : readAll limit size tokens = .ok exprs) (other : Nat) :
    readAll limit other tokens = .ok exprs := by
  have more := readAllOn_append_of_ok limit read other []
  rw [List.append_nil] at more
  rw [readAll, more, readAllOn, List.reverse_reverse]

theorem readAll_size_of_error {size : Nat} {tokens : List Token} {error : ParseError}
    (failed : readAll limit size tokens = .error error) (found : error.isUnexpectedEnd = false)
    (other : Nat) : readAll limit other tokens = .error error := by
  have more := readAllOn_append_of_error limit failed found other []
  rwa [List.append_nil] at more

end Expr

/-! ## Scanning a line after others -/

theorem Token.scan_line {front : String} (balanced : IsBalanced front) (rest : String) :
    Token.scan (front ++ "\n" ++ rest) =
      Token.scan front ++ (Token.scan rest).map (Token.shift (front.utf8ByteSize + 1)) := by
  have line : Scan.start.read (front ++ "\n").toList =
      ⟨front.utf8ByteSize + 1, none, (Scan.start.read front.toList).closed⟩ := by
    rw [String.toList_append, Scan.read_append]
    change (Scan.start.read front.toList).next '\n' = _
    rw [Scan.next_of_isBlank balanced.isQuoted_read (by decide), Scan.offset_start_read]
    rfl
  simp only [Token.scan_eq_ofChars, Token.ofChars]
  rw [String.toList_append, Scan.read_append, line, Scan.closed_read_of_current_eq_none rfl]
  simp

namespace Expr

variable {limit : Nat} {front : String} (balanced : IsBalanced front)

include balanced

theorem parse_line_of_ok {exprs : List Expr} (parsed : parse limit front = .ok exprs)
    (rest : String) :
    parse limit (front ++ "\n" ++ rest) =
      ((parse limit rest).mapError (ParseError.shift (front.utf8ByteSize + 1))).map
        (exprs ++ ·) := by
  have size : (front ++ "\n" ++ rest).utf8ByteSize =
      front.utf8ByteSize + 1 + rest.utf8ByteSize := by
    rw [String.utf8ByteSize_append, String.utf8ByteSize_append]
    rfl
  rw [parse_eq_readAll] at parsed
  rw [parse_eq_readAll, parse_eq_readAll, ← readAll_shift, ← size]
  unfold readAll
  rw [Token.scan_line balanced, readAllOn_append_of_ok limit parsed,
    ← List.nil_append exprs.reverse, readAllOn_finished, List.reverse_reverse]

theorem parse_line_of_error {error : ParseError} (failed : parse limit front = .error error)
    (found : error.isUnexpectedEnd = false) (rest : String) :
    parse limit (front ++ "\n" ++ rest) = .error error := by
  rw [parse_eq_readAll] at failed
  rw [parse_eq_readAll, readAll, Token.scan_line balanced]
  exact readAllOn_append_of_error limit failed found _ _

/-- Reading is incremental. After lines that can be read, the rest is read as it would be alone, and
its error is the same but for the place. After lines that cannot be read the error stays, whatever
the rest is, unless the lines have only ended too early. -/
theorem lines_read_incrementally (limit : Nat) (rest : String) :
    let joined := parse limit (front ++ "\n" ++ rest)
    (∀ exprs, parse limit front = .ok exprs →
      (∀ others, parse limit rest = .ok others → joined = .ok (exprs ++ others)) ∧
      ∀ error, parse limit rest = .error error →
        joined = .error (error.shift (front.utf8ByteSize + 1))) ∧
    ∀ error, parse limit front = .error error →
      (error.isUnexpectedEnd = false → joined = .error error) ∧
      ((∃ more exprs, parse limit (front ++ "\n" ++ more) = .ok exprs) →
        error.isUnexpectedEnd = true) := by
  intro joined
  refine ⟨?_, ?_⟩
  · intro exprs parsed
    have whole := parse_line_of_ok balanced parsed rest
    refine ⟨?_, ?_⟩
    · intro others parsedRest
      rw [parsedRest] at whole
      exact whole
    · intro error failedRest
      rw [failedRest] at whole
      exact whole
  · intro error failed
    refine ⟨fun found => parse_line_of_error balanced failed found rest, ?_⟩
    intro completed
    rcases completed with ⟨more, exprs, parsed⟩
    cases found : error.isUnexpectedEnd with
    | true => rfl
    | false =>
        rw [parse_line_of_error balanced failed found more] at parsed
        cases parsed

omit balanced in
/-- Brackets between quotation marks stand on the first line, and the definition on the second line
lacks its body. Alone, the second line fails at its own place, and before the first line it keeps
its error. -/
theorem lines_read_incrementally_definition :
    let call := "(é \"a (\")"
    let definition := "  (defun (f x))"
    let error : ParseError := .invalidDefinition "missing function body" ⟨2, 15⟩
    IsBalanced call ∧ IsBalanced definition ∧
      parse 2 call = .ok [.list [.atom (.symbol "é"), .atom (.string "a (")]] ∧
      parse 2 definition = .error error ∧
      parse 2 (call ++ "\n" ++ definition) = .error (error.shift 11) ∧
      parse 2 (definition ++ "\n" ++ call) = .error error := by
  intro call definition error
  have balanced : IsBalanced call := by decide
  have balancedDefinition : IsBalanced definition := by decide
  have parsed : parse 2 call = .ok [.list [.atom (.symbol "é"), .atom (.string "a (")]] := by
    rw [parse_eq_readAll, Token.scan_eq_ofChars]
    unfold call
    rfl
  have failed : parse 2 definition = .error error := by
    rw [parse_eq_readAll, Token.scan_eq_ofChars]
    unfold definition
    rfl
  have after := ((lines_read_incrementally balanced 2 definition).1 _ parsed).2 error failed
  have before := ((lines_read_incrementally balancedDefinition 2 call).2 error failed).1 rfl
  exact ⟨balanced, balancedDefinition, parsed, failed, after, before⟩

end Expr

end RuleLisp
