import RuleLisp.Token

/-! # Scans

A scan reads a source one character at a time, and what a character does depends only on whether it
stands between quotation marks. The lexer takes whole words instead, so a source is easier to cut
into parts for a scan.
-/

namespace RuleLisp

structure OpenWord where
  start : Nat
  /-- The characters so far, the newest first. -/
  chars : List Char
  /-- Whether an odd number of quotation marks has been seen. -/
  quoted : Bool
deriving DecidableEq, Repr

structure Scan where
  offset : Nat
  /-- The word that the last characters belong to, if any. -/
  current : Option OpenWord
  /-- The finished tokens, the newest first. -/
  tokens : List Token
deriving DecidableEq, Repr

namespace Scan

def start : Scan :=
  ⟨0, none, []⟩

/-- The finished tokens, with the current word among them, the newest first. -/
def closed (scan : Scan) : List Token :=
  match scan.current with
  | none => scan.tokens
  | some word =>
      ⟨.word (String.ofList word.chars.reverse), ⟨word.start, scan.offset⟩⟩ :: scan.tokens

def isQuoted (scan : Scan) : Bool :=
  match scan.current with
  | none => false
  | some word => word.quoted

def extend (scan : Scan) (char : Char) : Scan :=
  let word :=
    match scan.current with
    | none => ⟨scan.offset, [char], char = '"'⟩
    | some word => ⟨word.start, char :: word.chars, word.quoted ^^ (char = '"')⟩
  ⟨scan.offset + char.utf8Size, some word, scan.tokens⟩

def next (scan : Scan) (char : Char) : Scan :=
  if scan.isQuoted then scan.extend char
  else
    let stop := scan.offset + char.utf8Size
    match Lexeme.bracket? char with
    | some bracket => ⟨stop, none, ⟨bracket, ⟨scan.offset, stop⟩⟩ :: scan.closed⟩
    | none => if Text.isBlank char then ⟨stop, none, scan.closed⟩ else scan.extend char

def read (scan : Scan) (text : List Char) : Scan :=
  text.foldl next scan

end Scan

def Token.ofChars (text : List Char) : List Token :=
  (Scan.start.read text).closed.reverse

example : (Token.ofChars "(a\"b c\" d".toList).map Token.span =
    [⟨0, 1⟩, ⟨1, 7⟩, ⟨8, 9⟩] := by decide

/-! ## One character -/

namespace Scan

/-- What reading a character does. -/
theorem next_cases (scan : Scan) (char : Char) :
    ((scan.isQuoted = true ∨ (Lexeme.bracket? char = none ∧ Text.isBlank char = false)) ∧
        scan.next char = scan.extend char) ∨
      (scan.isQuoted = false ∧ ∃ bracket, Lexeme.bracket? char = some bracket ∧
        scan.next char = ⟨scan.offset + char.utf8Size, none,
          ⟨bracket, ⟨scan.offset, scan.offset + char.utf8Size⟩⟩ :: scan.closed⟩) ∨
      (scan.isQuoted = false ∧ Text.isBlank char = true ∧
        scan.next char = ⟨scan.offset + char.utf8Size, none, scan.closed⟩) := by
  cases quoted : scan.isQuoted with
  | true => exact .inl ⟨.inl rfl, by simp [next, quoted]⟩
  | false =>
      cases bracket : Lexeme.bracket? char with
      | some lexeme => exact .inr (.inl ⟨rfl, lexeme, rfl, by simp [next, quoted, bracket]⟩)
      | none =>
          cases blank : Text.isBlank char with
          | true => exact .inr (.inr ⟨rfl, rfl, by simp [next, quoted, bracket, blank]⟩)
          | false => exact .inl ⟨.inr ⟨rfl, rfl⟩, by simp [next, quoted, bracket, blank]⟩

theorem next_eq_extend {scan : Scan} {char : Char}
    (belongs : scan.isQuoted = true ∨ (Lexeme.bracket? char = none ∧ Text.isBlank char = false)) :
    scan.next char = scan.extend char := by
  rcases belongs with quoted | ⟨bracket, blank⟩
  · simp [next, quoted]
  · simp [next, bracket, blank]

theorem next_of_bracket? {scan : Scan} {char : Char} {bracket : Lexeme}
    (unquoted : scan.isQuoted = false) (found : Lexeme.bracket? char = some bracket) :
    scan.next char = ⟨scan.offset + char.utf8Size, none,
      ⟨bracket, ⟨scan.offset, scan.offset + char.utf8Size⟩⟩ :: scan.closed⟩ := by
  simp [next, unquoted, found]

theorem bracket?_of_isBlank {char : Char} (blank : Text.isBlank char = true) :
    Lexeme.bracket? char = none := by
  unfold Lexeme.bracket?
  repeat' split
  all_goals simp_all [Text.isBlank, Text.blankRanges]

theorem next_of_isBlank {scan : Scan} {char : Char} (unquoted : scan.isQuoted = false)
    (blank : Text.isBlank char = true) :
    scan.next char = ⟨scan.offset + char.utf8Size, none, scan.closed⟩ := by
  simp [next, unquoted, bracket?_of_isBlank blank, blank]

theorem read_append (scan : Scan) (text others : List Char) :
    scan.read (text ++ others) = (scan.read text).read others :=
  List.foldl_append

/-! ## Quotation marks -/

theorem bracket?_mark : Lexeme.bracket? '"' = none := by decide

theorem isBlank_mark : Text.isBlank '"' = false := by decide

theorem isQuoted_extend (scan : Scan) (char : Char) :
    (scan.extend char).isQuoted = (scan.isQuoted ^^ decide (char = '"')) := by
  cases current : scan.current <;> simp [extend, isQuoted, current]

theorem isQuoted_next (scan : Scan) (char : Char) :
    (scan.next char).isQuoted = (scan.isQuoted ^^ decide (char = '"')) := by
  rcases scan.next_cases char with
    ⟨_, same⟩ | ⟨unquoted, bracket, found, same⟩ | ⟨unquoted, blank, same⟩
  · rw [same, isQuoted_extend]
  · have other : char ≠ '"' := by
      rintro rfl
      simp [bracket?_mark] at found
    rw [same, unquoted]
    simp [isQuoted, other]
  · have other : char ≠ '"' := by
      rintro rfl
      simp [isBlank_mark] at blank
    rw [same, unquoted]
    simp [isQuoted, other]

/-- A scan is inside quotation marks after an odd number of them. -/
theorem isQuoted_read (scan : Scan) (text : List Char) :
    (scan.read text).isQuoted = (scan.isQuoted ^^ decide (text.count '"' % 2 = 1)) := by
  induction text generalizing scan with
  | nil => simp [read]
  | cons char rest induction =>
      change ((scan.next char).read rest).isQuoted = _
      rw [induction, isQuoted_next, List.count_cons, Bool.xor_assoc]
      rcases Nat.mod_two_eq_zero_or_one (rest.count '"') with parity | parity <;>
        by_cases mark : char = '"' <;> simp [mark, parity, Nat.add_mod]

end Scan

end RuleLisp
