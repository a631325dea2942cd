import RuleLisp.Proofs.Lexer

/-! # Scanning parts of a source

A source can be cut at a blank character or at a bracket that is outside quotation marks, and both
parts can then be scanned apart. A *word* is a text that is scanned as itself alone, and every word
that a scan gives is one.
-/

namespace RuleLisp

/-! ## Later parts -/

def Span.shift (distance : Nat) (span : Span) : Span :=
  ⟨distance + span.start, distance + span.stop⟩

def Token.shift (distance : Nat) (token : Token) : Token :=
  ⟨token.lexeme, token.span.shift distance⟩

namespace Scan

/-- A scan that has started in a later part of a source, after the given tokens, the newest
first. -/
def shift (distance : Nat) (before : List Token) (scan : Scan) : Scan :=
  ⟨distance + scan.offset,
    scan.current.map fun word => ⟨distance + word.start, word.chars, word.quoted⟩,
    scan.tokens.map (Token.shift distance) ++ before⟩

variable (distance : Nat) (before : List Token)

theorem closed_shift (scan : Scan) :
    (scan.shift distance before).closed = scan.closed.map (Token.shift distance) ++ before := by
  cases current : scan.current <;> simp [closed, shift, current, Token.shift, Span.shift]

theorem isQuoted_shift (scan : Scan) :
    (scan.shift distance before).isQuoted = scan.isQuoted := by
  cases current : scan.current <;> simp [isQuoted, shift, current]

theorem extend_shift (scan : Scan) (char : Char) :
    (scan.shift distance before).extend char = (scan.extend char).shift distance before := by
  cases current : scan.current <;> simp [extend, shift, current, Nat.add_assoc]

theorem next_shift (scan : Scan) (char : Char) :
    (scan.shift distance before).next char = (scan.next char).shift distance before := by
  have shifted := scan.isQuoted_shift distance before
  rcases scan.next_cases char with
    ⟨belongs, same⟩ | ⟨unquoted, bracket, found, same⟩ | ⟨unquoted, blank, same⟩
  · rw [same, ← extend_shift]
    exact next_eq_extend (by rw [shifted]; exact belongs)
  · rw [same, next_of_bracket? (by rw [shifted]; exact unquoted) found, closed_shift]
    simp [shift, Token.shift, Span.shift, Nat.add_assoc]
  · rw [same, next_of_isBlank (by rw [shifted]; exact unquoted) blank, closed_shift]
    simp [shift, Nat.add_assoc]

theorem read_shift (scan : Scan) (text : List Char) :
    (scan.shift distance before).read text = (scan.read text).shift distance before := by
  induction text generalizing scan with
  | nil => rfl
  | cons char rest induction =>
      change ((scan.shift distance before).next char).read rest = _
      rw [next_shift, induction]
      rfl

/-- A scan between two words goes on as a scan of what is left. -/
theorem closed_read_of_current_eq_none {scan : Scan} (between : scan.current = none)
    (text : List Char) :
    (scan.read text).closed =
      (start.read text).closed.map (Token.shift scan.offset) ++ scan.tokens := by
  have fresh : scan = start.shift scan.offset scan.tokens := by
    rcases scan with ⟨offset, current, tokens⟩
    cases between
    simp [shift, start]
  rw [fresh, read_shift, closed_shift]
  simp [shift, start]

/-! ## Places -/

theorem offset_next (scan : Scan) (char : Char) :
    (scan.next char).offset = scan.offset + char.utf8Size := by
  rcases scan.next_cases char with ⟨_, same⟩ | ⟨_, _, _, same⟩ | ⟨_, _, same⟩ <;> rw [same]
  rfl

theorem offset_read (scan : Scan) (text : List Char) :
    (scan.read text).offset = scan.offset + (String.ofList text).utf8ByteSize := by
  induction text generalizing scan with
  | nil => simp [read]
  | cons char rest induction =>
      change ((scan.next char).read rest).offset = _
      rw [induction, offset_next]
      simp [Nat.add_assoc]

theorem offset_start_read (source : String) :
    (start.read source.toList).offset = source.utf8ByteSize := by
  rw [offset_read, String.ofList_toList]
  exact Nat.zero_add _

/-! ## Blank characters -/

/-- Blank characters outside quotation marks only end the current word. -/
theorem read_blanks {scan : Scan} (unquoted : scan.isQuoted = false) {blanks : List Char}
    (blank : ∀ char ∈ blanks, Text.isBlank char = true) :
    (scan.read blanks).closed = scan.closed ∧
      (scan.current = none → (scan.read blanks).current = none) := by
  induction blanks generalizing scan with
  | nil => exact ⟨rfl, id⟩
  | cons char rest induction =>
      rw [List.forall_mem_cons] at blank
      change ((scan.next char).read rest).closed = _ ∧
        (_ → ((scan.next char).read rest).current = _)
      rw [next_of_isBlank unquoted blank.1]
      have later := @induction ⟨scan.offset + char.utf8Size, none, scan.closed⟩ rfl blank.2
      exact ⟨later.1, fun _ => later.2 rfl⟩

end Scan

def Lexeme.scan (source : String) : List Lexeme :=
  (Token.scan source).map Token.lexeme

def IsBalanced (text : String) : Prop :=
  text.toList.count '"' % 2 = 0

instance : DecidablePred IsBalanced :=
  fun text => inferInstanceAs (Decidable (text.toList.count '"' % 2 = 0))

theorem IsBalanced.isQuoted_read {text : String} (balanced : IsBalanced text) :
    (Scan.start.read text.toList).isQuoted = false := by
  rw [Scan.isQuoted_read]
  simp [IsBalanced] at balanced
  simp [Scan.start, Scan.isQuoted, balanced]

theorem IsBalanced.append {text other : String} (balanced : IsBalanced text)
    (otherBalanced : IsBalanced other) : IsBalanced (text ++ other) := by
  simp only [IsBalanced, String.toList_append, List.count_append] at *
  omega

namespace Lexeme

theorem scan_eq (source : String) :
    scan source = ((Scan.start.read source.toList).closed.map Token.lexeme).reverse := by
  rw [scan, Token.scan_eq_ofChars, Token.ofChars, List.map_reverse]

/-- A scan between two words goes on as a scan of what is left. -/
theorem scan_append_of_current_eq_none {front rest : String}
    (between : (Scan.start.read front.toList).current = none) :
    scan (front ++ rest) = scan front ++ scan rest := by
  have closed : (Scan.start.read front.toList).closed = (Scan.start.read front.toList).tokens := by
    simp [Scan.closed, between]
  simp only [scan_eq, String.toList_append, Scan.read_append,
    Scan.closed_read_of_current_eq_none between, closed, List.map_append, List.map_map,
    List.reverse_append]
  rfl

theorem bracket?_ne_word (char : Char) (text : String) : bracket? char ≠ some (.word text) := by
  unfold bracket?
  repeat' split
  all_goals simp

theorem scan_push_bracket {text : String} (balanced : IsBalanced text) {char : Char}
    {bracket : Lexeme} (found : bracket? char = some bracket) :
    (Scan.start.read (text ++ String.singleton char).toList).current = none ∧
      scan (text ++ String.singleton char) = scan text ++ [bracket] := by
  have next : Scan.start.read (text ++ String.singleton char).toList =
      (Scan.start.read text.toList).next char := by
    simp [Scan.read]
  rw [scan_eq, scan_eq, next, Scan.next_of_bracket? balanced.isQuoted_read found]
  simp [Scan.closed]

theorem scan_push_blank {text : String} (balanced : IsBalanced text) :
    (Scan.start.read (text ++ " ").toList).current = none ∧
      scan (text ++ " ") = scan text := by
  have next : Scan.start.read (text ++ " ").toList = (Scan.start.read text.toList).next ' ' := by
    simp [Scan.read]
  rw [scan_eq, scan_eq, next, Scan.next_of_isBlank balanced.isQuoted_read (by decide)]
  simp [Scan.closed]

theorem scan_spaced {text : String} (balanced : IsBalanced text) (other : String) :
    scan (text ++ " " ++ other) = scan text ++ scan other := by
  obtain ⟨between, scanned⟩ := scan_push_blank balanced
  rw [scan_append_of_current_eq_none between, scanned]

end Lexeme

/-! ## Spelling -/

/-- A text is scanned as the given lexemes, and every quotation mark in it has a partner. -/
structure Spells (text : String) (lexemes : List Lexeme) : Prop where
  balanced : IsBalanced text
  scanned : Lexeme.scan text = lexemes

namespace Spells

variable {text other : String} {lexemes otherLexemes : List Lexeme}

/-- Of a given text, the lexemes can be computed from a scan. -/
theorem of_ofChars (balanced : IsBalanced text)
    (scanned : (Token.ofChars text.toList).map Token.lexeme = lexemes) : Spells text lexemes := by
  refine ⟨balanced, ?_⟩
  rw [Lexeme.scan, Token.scan_eq_ofChars, scanned]

theorem empty : Spells "" [] :=
  of_ofChars (by decide) (by decide)

theorem bracket {char : Char} {lexeme : Lexeme} (spells : Spells text lexemes)
    (found : Lexeme.bracket? char = some lexeme) (otherSpells : Spells other otherLexemes) :
    Spells (text ++ String.singleton char ++ other) (lexemes ++ lexeme :: otherLexemes) := by
  rcases Lexeme.scan_push_bracket spells.balanced found with ⟨between, scanned⟩
  refine ⟨IsBalanced.append (spells.balanced.append ?_) otherSpells.balanced, ?_⟩
  · have unmarked : char ≠ '"' := by
      rintro rfl
      cases found
    simp [IsBalanced, unmarked]
  · rw [Lexeme.scan_append_of_current_eq_none between, scanned, spells.scanned, otherSpells.scanned]
    simp

/-- Brackets around a text. -/
theorem bracketed (shape : Shape) (spells : Spells text lexemes) :
    Spells (shape.opener.toString ++ text ++ shape.closer.toString)
      (.opening shape :: (lexemes ++ [.closing shape])) := by
  have opened : Spells (shape.opener.toString ++ text) (.opening shape :: lexemes) := by
    have found : Lexeme.bracket? shape.opener = some (.opening shape) := by
      cases shape <;> decide
    simpa using empty.bracket found spells
  have found : Lexeme.bracket? shape.closer = some (.closing shape) := by
    cases shape <;> decide
  simpa using opened.bracket found empty

/-- Two texts with a space between them. -/
theorem spaced (spells : Spells text lexemes) (otherSpells : Spells other otherLexemes) :
    Spells (text ++ " " ++ other) (lexemes ++ otherLexemes) := by
  refine ⟨(spells.balanced.append (by decide)).append otherSpells.balanced, ?_⟩
  rw [Lexeme.scan_spaced spells.balanced, spells.scanned, otherSpells.scanned]

theorem intercalate_cons {texts : List String} (spells : Spells text lexemes)
    (others : Spells (" ".intercalate texts) otherLexemes) :
    Spells (" ".intercalate (text :: texts)) (lexemes ++ otherLexemes) := by
  cases texts with
  | nil =>
      have nothing : otherLexemes = [] := others.scanned.symm.trans empty.scanned
      rw [String.intercalate_singleton, nothing, List.append_nil]
      exact spells
  | cons next rest =>
      rw [String.intercalate_cons_cons]
      exact spells.spaced others

end Spells

/-! ## Words -/

namespace Scan

/-- The finished words of a scan are words, and its current word is scanned as itself so far. -/
structure IsRegular (scan : Scan) : Prop where
  finished : ∀ token ∈ scan.tokens, ∀ text, token.lexeme = .word text → Spells text [.word text]
  current : ∀ word, scan.current = some word →
    ∃ size, start.read word.chars.reverse = ⟨size, some ⟨0, word.chars, word.quoted⟩, []⟩

namespace IsRegular

variable {scan : Scan}

theorem scan_current (regular : scan.IsRegular) {word : OpenWord}
    (current : scan.current = some word) :
    Lexeme.scan (String.ofList word.chars.reverse) =
      [.word (String.ofList word.chars.reverse)] := by
  rcases regular.current word current with ⟨size, alone⟩
  rw [Lexeme.scan_eq, String.toList_ofList, alone]
  simp [closed]

theorem spells_of_mem_closed (regular : scan.IsRegular) (unquoted : scan.isQuoted = false)
    {token : Token} (member : token ∈ scan.closed) {text : String}
    (equal : token.lexeme = .word text) : Spells text [.word text] := by
  cases current : scan.current with
  | none =>
      simp only [closed, current] at member
      exact regular.finished token member text equal
  | some word =>
      simp only [closed, current] at member
      rcases List.mem_cons.mp member with rfl | member
      · cases equal
        refine ⟨?_, regular.scan_current current⟩
        rcases regular.current word current with ⟨size, alone⟩
        have parity := start.isQuoted_read word.chars.reverse
        simp only [isQuoted, current] at unquoted
        rw [alone] at parity
        simpa [isQuoted, start, unquoted, IsBalanced] using parity
      · exact regular.finished token member text equal

theorem extend (regular : scan.IsRegular) {char : Char}
    (belongs : scan.isQuoted = true ∨ (Lexeme.bracket? char = none ∧ Text.isBlank char = false)) :
    (scan.extend char).IsRegular := by
  refine ⟨regular.finished, fun word extended => ?_⟩
  cases current : scan.current with
  | none =>
      simp only [Scan.extend, current, Option.some.injEq] at extended
      subst extended
      have fresh : start.next char = start.extend char :=
        next_eq_extend (.inr (belongs.resolve_left (by simp [isQuoted, current])))
      exact ⟨_, fresh⟩
  | some before =>
      simp only [Scan.extend, current, Option.some.injEq] at extended
      subst extended
      rcases regular.current before current with ⟨size, alone⟩
      have belongsAlone : (start.read before.chars.reverse).isQuoted = true ∨
          (Lexeme.bracket? char = none ∧ Text.isBlank char = false) := by
        simpa [alone, isQuoted, current] using belongs
      refine ⟨size + char.utf8Size, ?_⟩
      rw [List.reverse_cons, read_append]
      change (start.read before.chars.reverse).next char = _
      rw [next_eq_extend belongsAlone, alone]
      rfl

theorem next (regular : scan.IsRegular) (char : Char) : (scan.next char).IsRegular := by
  rcases scan.next_cases char with
    ⟨belongs, same⟩ | ⟨unquoted, bracket, found, same⟩ | ⟨unquoted, _, same⟩
  · rw [same]
    exact regular.extend belongs
  · rw [same]
    refine ⟨fun token member text equal => ?_, fun word impossible => by cases impossible⟩
    rcases List.mem_cons.mp member with rfl | member
    · exact absurd (equal ▸ found) (Lexeme.bracket?_ne_word char text)
    · exact regular.spells_of_mem_closed unquoted member equal
  · rw [same]
    exact ⟨fun token member text equal => regular.spells_of_mem_closed unquoted member equal,
      fun word impossible => by cases impossible⟩

theorem read (regular : scan.IsRegular) (text : List Char) : (scan.read text).IsRegular := by
  induction text generalizing scan with
  | nil => exact regular
  | cons char rest induction => exact induction (regular.next char)

theorem start : Scan.start.IsRegular :=
  ⟨fun _ member => (nomatch member), fun _ impossible => (nomatch impossible)⟩

end IsRegular

end Scan

namespace Lexeme

/-- A word of a source is scanned as itself and has no open quotation mark, unless it comes last. -/
theorem spells_of_mem_dropLast_scan {source text : String}
    (member : .word text ∈ (scan source).dropLast) : Spells text [.word text] := by
  have regular := Scan.IsRegular.start.read source.toList
  have finished : .word text ∈ (Scan.start.read source.toList).tokens.map Token.lexeme := by
    rw [scan_eq, List.dropLast_reverse, List.mem_reverse, ← List.map_tail] at member
    cases current : (Scan.start.read source.toList).current with
    | none =>
        simp only [Scan.closed, current] at member
        exact List.map_subset _ (fun _ => List.mem_of_mem_tail) member
    | some word => simpa [Scan.closed, current] using member
  rcases List.mem_map.mp finished with ⟨token, member, equal⟩
  exact regular.finished token member text equal

/-- A word of a source is scanned as itself. -/
theorem scan_of_mem_scan {source text : String} (member : .word text ∈ scan source) :
    scan text = [.word text] := by
  have regular := Scan.IsRegular.start.read source.toList
  rw [scan_eq, List.mem_reverse] at member
  rcases List.mem_map.mp member with ⟨token, member, equal⟩
  cases current : (Scan.start.read source.toList).current with
  | none =>
      simp only [Scan.closed, current] at member
      exact (regular.finished token member text equal).scanned
  | some word =>
      simp only [Scan.closed, current] at member
      rcases List.mem_cons.mp member with rfl | member
      · cases equal
        exact regular.scan_current current
      · exact (regular.finished token member text equal).scanned

end Lexeme

namespace Scan

/-- Characters that neither open nor close a quotation stay in the current word. -/
theorem exists_read_eq_of_current {first : Nat} {chars : List Char} {quoted : Bool}
    {tokens : List Token} {text : List Char}
    (belongs : ∀ char ∈ text, char ≠ '"' ∧
      (quoted = true ∨ (Lexeme.bracket? char = none ∧ Text.isBlank char = false)))
    (offset : Nat) :
    ∃ size, read ⟨offset, some ⟨first, chars, quoted⟩, tokens⟩ text =
      ⟨size, some ⟨first, text.reverse ++ chars, quoted⟩, tokens⟩ := by
  induction text generalizing chars offset with
  | nil => exact ⟨offset, rfl⟩
  | cons char rest induction =>
      rcases belongs char List.mem_cons_self with ⟨unmarked, stays⟩
      have next : Scan.next ⟨offset, some ⟨first, chars, quoted⟩, tokens⟩ char =
          ⟨offset + char.utf8Size, some ⟨first, char :: chars, quoted⟩, tokens⟩ := by
        have inWord : isQuoted ⟨offset, some ⟨first, chars, quoted⟩, tokens⟩ = true ∨
            (Lexeme.bracket? char = none ∧ Text.isBlank char = false) := stays
        rw [next_eq_extend inWord]
        simp [extend, unmarked]
      rcases induction (fun char member => belongs char (List.mem_cons_of_mem _ member))
        (offset + char.utf8Size) with ⟨size, same⟩
      refine ⟨size, ?_⟩
      change read (Scan.next _ char) rest = _
      rw [next, same]
      simp

end Scan

namespace Spells

theorem of_read {text : String}
    (alone : ∃ size,
      Scan.start.read text.toList = ⟨size, some ⟨0, text.toList.reverse, false⟩, []⟩) :
    Spells text [.word text] := by
  rcases alone with ⟨size, read⟩
  refine ⟨?_, ?_⟩
  · have parity := Scan.start.isQuoted_read text.toList
    rw [read] at parity
    simpa [Scan.isQuoted, Scan.start, IsBalanced] using parity
  · rw [Lexeme.scan_eq, read]
    simp [Scan.closed]

/-- A text without brackets, blanks and quotation marks is a word. -/
theorem plain {text : String} (nonempty : text ≠ "")
    (belongs : ∀ char ∈ text.toList,
      char ≠ '"' ∧ Lexeme.bracket? char = none ∧ Text.isBlank char = false) :
    Spells text [.word text] := by
  cases chars : text.toList with
  | nil => exact absurd (String.toList_eq_nil_iff.mp chars) nonempty
  | cons char rest =>
      rw [chars] at belongs
      rcases belongs char List.mem_cons_self with ⟨unmarked, stays⟩
      have next : Scan.start.next char = ⟨0 + char.utf8Size, some ⟨0, [char], false⟩, []⟩ := by
        rw [Scan.next_eq_extend (.inr stays)]
        simp [Scan.extend, Scan.start, unmarked]
      rcases @Scan.exists_read_eq_of_current 0 [char] false [] rest
        (fun char member => (belongs char (List.mem_cons_of_mem _ member)).imp_right .inr)
        (0 + char.utf8Size) with ⟨size, same⟩
      refine of_read ⟨size, ?_⟩
      rw [chars]
      change Scan.read (Scan.start.next char) rest = _
      rw [next, same, List.reverse_cons]

/-- A text without quotation marks is a word if it is put between two of them. -/
theorem quoted {text : String} (unmarked : '"' ∉ text.toList) :
    Spells ("\"" ++ text ++ "\"") [.word ("\"" ++ text ++ "\"")] := by
  rcases @Scan.exists_read_eq_of_current 0 ['"'] true [] text.toList
    (fun char member => ⟨fun mark => unmarked (mark ▸ member), .inl rfl⟩) 1 with ⟨size, same⟩
  have chars : ("\"" ++ text ++ "\"").toList = ['"'] ++ text.toList ++ ['"'] := by simp
  have opened : Scan.start.read ['"'] = ⟨1, some ⟨0, ['"'], true⟩, []⟩ := by decide
  have finished : Scan.read ⟨size, some ⟨0, text.toList.reverse ++ ['"'], true⟩, []⟩ ['"'] =
      ⟨size + 1, some ⟨0, '"' :: (text.toList.reverse ++ ['"']), false⟩, []⟩ :=
    rfl
  refine of_read ⟨size + 1, ?_⟩
  rw [chars, Scan.read_append, Scan.read_append, opened, same, finished]
  simp

end Spells

end RuleLisp
