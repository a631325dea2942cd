import Mathlib.Data.List.Chain
import RuleLisp.Proofs.Token

/-! # Tokens tile a source

The tokens of a source stand in it one after the other, each of them exactly where its span says,
and only blank characters are left between them. Words are as long as they can be: a word ends
where a blank or a bracket comes outside quotation marks, and nowhere else.
-/

namespace RuleLisp

def Span.Covers (span : Span) (offset : Nat) : Prop :=
  span.start ≤ offset ∧ offset < span.stop

/-- A character that ends the word before it, unless it stands between quotation marks. -/
def Lexeme.Separates (char : Char) : Prop :=
  Text.isBlank char = true ∨ (bracket? char).isSome = true

/-- Blanks and brackets in a text come only after an odd number of quotation marks. -/
def Lexeme.RunsOn (text : String) : Prop :=
  ∀ (front : String) (char : Char) (back : String), text = front.push char ++ back →
    Separates char → ¬IsBalanced front

/-- Brackets are whole. A word is whole if it has not run past its end. -/
def Lexeme.IsWhole : Lexeme → Prop
  | opening _ | closing _ => True
  | word text => text ≠ "" ∧ RunsOn text

theorem Lexeme.text_mem_of_isBracket {lexeme : Lexeme} (isBracket : lexeme.isBracket = true) :
    lexeme.text ∈ ["(", ")", "\x7b", "\x7d"] := by
  cases lexeme with
  | opening shape => cases shape <;> decide
  | closing shape => cases shape <;> decide
  | word text => cases isBracket

theorem Lexeme.text_of_bracket? {char : Char} {bracket : Lexeme}
    (found : bracket? char = some bracket) :
    bracket.text = String.singleton char ∧ bracket.isBracket = true := by
  unfold bracket? at found
  repeat' split at found
  all_goals cases found
  all_goals simp_all [text, isBracket, Shape.opener, Shape.closer, Char.toString]

theorem Lexeme.isBalanced_of_isBracket {lexeme : Lexeme} (isBracket : lexeme.isBracket = true) :
    IsBalanced lexeme.text := by
  cases lexeme with
  | opening shape => cases shape <;> decide
  | closing shape => cases shape <;> decide
  | word text => cases isBracket

theorem Lexeme.isWhole_of_isBracket {lexeme : Lexeme} (isBracket : lexeme.isBracket = true) :
    lexeme.IsWhole := by
  cases lexeme with
  | opening | closing => trivial
  | word text => cases isBracket

theorem Lexeme.IsWhole.utf8ByteSize_pos {lexeme : Lexeme} (whole : lexeme.IsWhole) :
    0 < lexeme.text.utf8ByteSize := by
  cases lexeme with
  | opening shape => cases shape <;> decide
  | closing shape => cases shape <;> decide
  | word text =>
      apply Nat.pos_of_ne_zero
      intro zero
      exact whole.1 (String.utf8ByteSize_eq_zero_iff.mp zero)

/-- Tokens in the order of a source that account for all of it. -/
structure Tiles (source : String) (tokens : List Token) : Prop where
  nonempty : ∀ token ∈ tokens, token.span.start < token.span.stop
  ordered : tokens.Pairwise fun earlier later => earlier.span.stop ≤ later.span.start
  text : ∀ token ∈ tokens, ∃ front back, source = front ++ token.lexeme.text ++ back ∧
    token.span = ⟨front.utf8ByteSize, (front ++ token.lexeme.text).utf8ByteSize⟩
  blank : ∀ (front : String) (char : Char) (back : String), source = front.push char ++ back →
    (∀ token ∈ tokens, ¬token.span.Covers front.utf8ByteSize) → Text.isBlank char = true
  bracket : ∀ token ∈ tokens, token.lexeme.isBracket = true →
    token.lexeme.text ∈ ["(", ")", "\x7b", "\x7d"]
  whole : ∀ token ∈ tokens, token.lexeme.IsWhole
  /-- A blank character stands between two words that follow each other. -/
  apart : tokens.IsChain fun first second =>
    first.lexeme.isBracket = false → second.lexeme.isBracket = false →
      ∃ (front : String) (char : Char) (back : String), source = front.push char ++ back ∧
        Text.isBlank char = true ∧ first.span.stop ≤ front.utf8ByteSize ∧
        front.utf8ByteSize < second.span.start
  balanced : ∀ token ∈ tokens.dropLast, IsBalanced token.lexeme.text
  /-- Only the end of the source can leave a quotation mark without a partner. -/
  unbalanced : ∀ token ∈ tokens.getLast?, ¬IsBalanced token.lexeme.text →
    token.span.stop = source.utf8ByteSize

/-! ## Places in a longer text -/

theorem split_append {text extra front back : String} {char : Char}
    (same : text ++ extra = front.push char ++ back) :
    (∃ rest, text = front.push char ++ rest ∧ back = rest ++ extra) ∨
      ∃ rest, front = text ++ rest ∧ extra = rest.push char ++ back := by
  have chars : text.toList ++ extra.toList = front.toList ++ char :: back.toList := by
    have lists := congrArg String.toList same
    simpa using lists
  rcases List.append_eq_append_iff.mp chars with ⟨rest, inFront, inExtra⟩ | ⟨rest, inText, inBack⟩
  · right
    refine ⟨String.ofList rest, ?_, ?_⟩
    · apply String.toList_inj.mp
      simpa using inFront
    · apply String.toList_inj.mp
      simpa using inExtra
  · cases rest with
    | nil =>
        right
        refine ⟨"", ?_, ?_⟩
        · apply String.toList_inj.mp
          simpa using inText.symm
        · apply String.toList_inj.mp
          simpa using inBack.symm
    | cons first rest =>
        rcases List.cons.inj inBack with ⟨rfl, inBack⟩
        left
        refine ⟨String.ofList rest, ?_, ?_⟩
        · apply String.toList_inj.mp
          simpa using inText
        · apply String.toList_inj.mp
          simpa using inBack

theorem eq_of_singleton_eq {char other : Char} {front back : String}
    (same : String.singleton char = front.push other ++ back) : front = "" ∧ other = char := by
  have chars : [char] = front.toList ++ other :: back.toList := by
    have lists := congrArg String.toList same
    simpa using lists
  cases before : front.toList with
  | nil =>
      rw [before, List.nil_append] at chars
      exact ⟨String.toList_eq_nil_iff.mp before, (List.cons.inj chars).1.symm⟩
  | cons first rest =>
      rw [before, List.cons_append] at chars
      have nothing := (List.cons.inj chars).2
      simp at nothing

theorem Lexeme.runsOn_empty : RunsOn "" := by
  intro front char back same
  have sizes := congrArg String.utf8ByteSize same
  have positive := char.utf8Size_pos
  simp at sizes
  omega

theorem Lexeme.RunsOn.push {text : String} (runsOn : RunsOn text) {char : Char}
    (belongs : Separates char → ¬IsBalanced text) : RunsOn (text.push char) := by
  intro front other back same separates
  have split : text ++ String.singleton char = front.push other ++ back := by
    rw [← same]
    simp
  obtain ⟨rest, inText, _⟩ | ⟨rest, inFront, inExtra⟩ := split_append split
  · exact runsOn front other rest inText separates
  · obtain ⟨rfl, rfl⟩ := eq_of_singleton_eq inExtra
    rw [inFront, String.append_empty]
    exact belongs separates

namespace Tiles

theorem empty : Tiles "" [] where
  nonempty := by simp
  ordered := .nil
  text := by simp
  blank front char back same := by
    have sizes := congrArg String.utf8ByteSize same
    have positive := char.utf8Size_pos
    simp at sizes
    omega
  bracket := by simp
  whole := by simp
  apart := .nil
  balanced := by simp
  unbalanced := by simp

variable {text : String} {tokens : List Token}

theorem stop_le (tiles : Tiles text tokens) {token : Token} (member : token ∈ tokens) :
    token.span.stop ≤ text.utf8ByteSize := by
  obtain ⟨front, back, same, span⟩ := tiles.text token member
  rw [span, same, String.utf8ByteSize_append (t := back)]
  exact Nat.le_add_right _ _

/-- A text stands where it stood when more text comes after it. -/
theorem exists_split (tiles : Tiles text tokens) (extra : String) {token : Token}
    (member : token ∈ tokens) :
    ∃ front back, text ++ extra = front ++ token.lexeme.text ++ back ∧
      token.span = ⟨front.utf8ByteSize, (front ++ token.lexeme.text).utf8ByteSize⟩ := by
  obtain ⟨front, back, same, span⟩ := tiles.text token member
  refine ⟨front, back ++ extra, ?_, span⟩
  rw [same, String.append_assoc]

theorem apart_append (tiles : Tiles text tokens) (extra : String) :
    tokens.IsChain fun first second =>
      first.lexeme.isBracket = false → second.lexeme.isBracket = false →
        ∃ (front : String) (char : Char) (back : String),
          text ++ extra = front.push char ++ back ∧ Text.isBlank char = true ∧
            first.span.stop ≤ front.utf8ByteSize ∧ front.utf8ByteSize < second.span.start := by
  apply tiles.apart.imp
  intro first second separated firstWord secondWord
  obtain ⟨front, char, back, same, blank, after, before⟩ := separated firstWord secondWord
  refine ⟨front, char, back ++ extra, ?_, blank, after, before⟩
  rw [same, String.append_assoc]

theorem push_blank (tiles : Tiles text tokens)
    (balanced : ∀ token ∈ tokens, IsBalanced token.lexeme.text) {char : Char}
    (blank : Text.isBlank char = true) : Tiles (text.push char) tokens := by
  have pushed : text.push char = text ++ String.singleton char := by simp
  exact {
    nonempty := tiles.nonempty
    ordered := tiles.ordered
    text := by
      intro token member
      rw [pushed]
      exact tiles.exists_split _ member
    blank := by
      intro front other back same outside
      rw [pushed] at same
      obtain ⟨rest, inText, _⟩ | ⟨rest, _, inExtra⟩ := split_append same
      · exact tiles.blank front other rest inText outside
      · rw [(eq_of_singleton_eq inExtra).2]
        exact blank
    bracket := tiles.bracket
    whole := tiles.whole
    apart := by
      rw [pushed]
      exact tiles.apart_append _
    balanced token member := balanced token (List.dropLast_subset tokens member)
    unbalanced token member odd := absurd (balanced token (List.mem_of_mem_getLast? member)) odd }

/-- Adding the next token. A word needs a blank character after the word before it. -/
theorem push_token (tiles : Tiles text tokens)
    (balanced : ∀ token ∈ tokens, IsBalanced token.lexeme.text) {lexeme : Lexeme}
    (whole : lexeme.IsWhole)
    (apart : lexeme.isBracket = false → ∀ token ∈ tokens.getLast?,
      token.lexeme.isBracket = false → ∃ (front : String) (char : Char), text = front.push char ∧
        Text.isBlank char = true ∧ token.span.stop ≤ front.utf8ByteSize) :
    Tiles (text ++ lexeme.text)
      (tokens ++ [⟨lexeme, text.utf8ByteSize, (text ++ lexeme.text).utf8ByteSize⟩]) where
  nonempty token member := by
    rcases List.mem_append.mp member with old | new
    · exact tiles.nonempty token old
    · rw [List.mem_singleton.mp new]
      have positive := whole.utf8ByteSize_pos
      simp only [String.utf8ByteSize_append]
      omega
  ordered := by
    rw [List.pairwise_append]
    refine ⟨tiles.ordered, List.pairwise_singleton .., ?_⟩
    intro earlier old later new
    rw [List.mem_singleton.mp new]
    exact tiles.stop_le old
  text token member := by
    rcases List.mem_append.mp member with old | new
    · exact tiles.exists_split _ old
    · rw [List.mem_singleton.mp new]
      exact ⟨text, "", by simp, rfl⟩
  blank front char back same outside := by
    rw [List.forall_mem_append] at outside
    obtain ⟨rest, inText, _⟩ | ⟨rest, inFront, inExtra⟩ := split_append same
    · exact tiles.blank front char rest inText outside.1
    · have covered : (Span.mk text.utf8ByteSize (text ++ lexeme.text).utf8ByteSize).Covers
          front.utf8ByteSize := by
        have positive := char.utf8Size_pos
        simp only [Span.Covers, inFront, inExtra, String.utf8ByteSize_append,
          String.utf8ByteSize_push]
        omega
      exact absurd covered (outside.2 _ (List.mem_singleton_self _))
  bracket token _ := Lexeme.text_mem_of_isBracket
  whole token member := by
    rcases List.mem_append.mp member with old | new
    · exact tiles.whole token old
    · rw [List.mem_singleton.mp new]
      exact whole
  apart := by
    rw [List.isChain_append]
    refine ⟨tiles.apart_append _, List.isChain_singleton _, ?_⟩
    intro first last second new firstWord secondWord
    cases new
    obtain ⟨front, char, same, blank, after⟩ := apart secondWord first last firstWord
    refine ⟨front, char, lexeme.text, by rw [same], blank, after, ?_⟩
    have positive := char.utf8Size_pos
    simp only [same, String.utf8ByteSize_push]
    omega
  balanced token member := by
    rw [List.dropLast_concat] at member
    exact balanced token member
  unbalanced token member _ := by
    rw [List.getLast?_concat] at member
    cases member
    rfl

end Tiles

structure AwaitsWord (text : String) (tokens : List Token) : Prop where
  tiles : Tiles text tokens
  balanced : ∀ token ∈ tokens, IsBalanced token.lexeme.text
  apart : ∀ token ∈ tokens.getLast?, token.lexeme.isBracket = false →
    ∃ (front : String) (char : Char), text = front.push char ∧ Text.isBlank char = true ∧
      token.span.stop ≤ front.utf8ByteSize

/-! ## Scanning -/

theorem isBalanced_empty : IsBalanced "" := by decide

theorem isBalanced_push (text : String) (char : Char) :
    IsBalanced (text.push char) ↔ (IsBalanced text ↔ char ≠ '"') := by
  unfold IsBalanced
  by_cases mark : char = '"'
  · simp [mark]
    omega
  · simp [mark]

namespace Scan

/-- A scan that has read a text. Its finished tokens tile the text up to the current word. -/
inductive HasTiled : String → Scan → Prop
  | between {text : String} {tokens : List Token} (awaits : AwaitsWord text tokens.reverse) :
      HasTiled text ⟨text.utf8ByteSize, none, tokens⟩
  | inWord {front word : String} {quoted : Bool} {tokens : List Token}
      (awaits : AwaitsWord front tokens.reverse) (whole : (Lexeme.word word).IsWhole)
      (parity : quoted = true ↔ ¬IsBalanced word) :
      HasTiled (front ++ word) ⟨front.utf8ByteSize + word.utf8ByteSize,
        some ⟨front.utf8ByteSize, word.toList.reverse, quoted⟩, tokens⟩

namespace HasTiled

variable {text : String} {scan : Scan}

theorem start : Scan.start.HasTiled "" := by
  apply between
  exact ⟨.empty, by simp, by simp⟩

theorem offset_eq (tiled : scan.HasTiled text) : scan.offset = text.utf8ByteSize := by
  cases tiled with
  | between => rfl
  | inWord => exact String.utf8ByteSize_append.symm

theorem tiles_closed (tiled : scan.HasTiled text) : Tiles text scan.closed.reverse := by
  cases tiled with
  | between awaits => exact awaits.tiles
  | inWord awaits whole _ =>
      have pushed := awaits.tiles.push_token awaits.balanced whole fun _ => awaits.apart
      simpa [closed, Lexeme.text] using pushed

theorem balanced_closed (tiled : scan.HasTiled text) (unquoted : scan.isQuoted = false) :
    ∀ token ∈ scan.closed.reverse, IsBalanced token.lexeme.text := by
  cases tiled with
  | between awaits => exact awaits.balanced
  | @inWord front word quoted _ awaits whole parity =>
      simp only [closed, List.reverse_cons, List.forall_mem_append, List.reverse_reverse,
        String.ofList_toList]
      refine ⟨awaits.balanced, List.forall_mem_singleton.mpr ?_⟩
      have closing : quoted = false := unquoted
      change IsBalanced word
      simpa [closing] using parity

theorem extend (tiled : scan.HasTiled text) {char : Char}
    (belongs : Lexeme.Separates char → scan.isQuoted = true) :
    (scan.extend char).HasTiled (text.push char) := by
  cases tiled with
  | between awaits =>
      have bare : ¬Lexeme.Separates char := fun separates => nomatch belongs separates
      have runsOn : Lexeme.RunsOn ("".push char) :=
        Lexeme.runsOn_empty.push fun separates => absurd separates bare
      have parity : decide (char = '"') = true ↔ ¬IsBalanced ("".push char) := by
        rw [isBalanced_push]
        simp [isBalanced_empty]
      have extended := inWord awaits ⟨by simp, runsOn⟩ parity
      simpa [Scan.extend] using extended
  | @inWord front word quoted _ awaits whole parity =>
      have runsOn : Lexeme.RunsOn (word.push char) :=
        whole.2.push fun separates => parity.mp (belongs separates)
      have flipped : (quoted ^^ decide (char = '"')) = true ↔ ¬IsBalanced (word.push char) := by
        cases quoted <;> simp_all [isBalanced_push]
      have extended := inWord awaits ⟨by simp, runsOn⟩ flipped
      rw [← String.append_singleton, String.append_assoc, String.append_singleton]
      simpa [Scan.extend, Nat.add_assoc] using extended

theorem bracket (tiled : scan.HasTiled text) (unquoted : scan.isQuoted = false) {char : Char}
    {lexeme : Lexeme} (found : Lexeme.bracket? char = some lexeme) :
    HasTiled (text.push char) ⟨scan.offset + char.utf8Size, none,
      ⟨lexeme, ⟨scan.offset, scan.offset + char.utf8Size⟩⟩ :: scan.closed⟩ := by
  obtain ⟨text_eq, isBracket⟩ := Lexeme.text_of_bracket? found
  have pushed : text ++ lexeme.text = text.push char := by
    rw [text_eq, String.append_singleton]
  have tiles := tiled.tiles_closed.push_token (tiled.balanced_closed unquoted)
    (Lexeme.isWhole_of_isBracket isBracket)
    (fun isWord => absurd isWord (by simp [isBracket]))
  rw [pushed] at tiles
  rw [tiled.offset_eq, ← String.utf8ByteSize_push]
  apply between
  rw [List.reverse_cons]
  refine ⟨tiles, ?_, ?_⟩
  · rw [List.forall_mem_append]
    refine ⟨tiled.balanced_closed unquoted, List.forall_mem_singleton.mpr ?_⟩
    exact Lexeme.isBalanced_of_isBracket isBracket
  · intro token last isWord
    rw [List.getLast?_concat] at last
    cases last
    cases isBracket.symm.trans isWord

theorem blank (tiled : scan.HasTiled text) (unquoted : scan.isQuoted = false) {char : Char}
    (blank : Text.isBlank char = true) :
    HasTiled (text.push char) ⟨scan.offset + char.utf8Size, none, scan.closed⟩ := by
  rw [tiled.offset_eq, ← String.utf8ByteSize_push]
  apply between
  have tiles := tiled.tiles_closed.push_blank (tiled.balanced_closed unquoted) blank
  refine ⟨tiles, tiled.balanced_closed unquoted, ?_⟩
  intro token last _
  have stop := tiled.tiles_closed.stop_le (List.mem_of_mem_getLast? last)
  exact ⟨text, char, rfl, blank, stop⟩

theorem next (tiled : scan.HasTiled text) (char : Char) :
    (scan.next char).HasTiled (text.push char) := by
  rcases scan.next_cases char with
    ⟨belongs, same⟩ | ⟨unquoted, bracket, found, same⟩ | ⟨unquoted, blank, same⟩
  · rw [same]
    apply tiled.extend
    intro separates
    apply belongs.resolve_right
    rintro ⟨noBracket, noBlank⟩
    simp [Lexeme.Separates, noBracket, noBlank] at separates
  · rw [same]
    exact tiled.bracket unquoted found
  · rw [same]
    exact tiled.blank unquoted blank

theorem read (tiled : scan.HasTiled text) (others : List Char) :
    (scan.read others).HasTiled (text ++ String.ofList others) := by
  induction others generalizing text scan with
  | nil => simpa [Scan.read] using tiled
  | cons char rest induction =>
      have later := induction (tiled.next char)
      have joined : text ++ String.ofList (char :: rest) =
          text.push char ++ String.ofList rest := by
        rw [String.ofList_cons, ← String.append_assoc, String.append_singleton]
      rw [joined]
      exact later

end HasTiled

end Scan

/-! ## Reading every source -/

namespace ReadStep

def IsReadable : ReadStep → Prop
  | wrong (.unreadable ..) _ => False
  | _ => True

variable (limit : Nat)

theorem isReadable_fill (expr : Expr) (holes : List Hole) : (fill expr holes).IsReadable := by
  rcases holes with _ | ⟨hole, outer⟩
  · trivial
  cases hole with
  | signature opened bracket =>
      simp only [fill]
      unfold sign
      repeat' split
      all_goals trivial
  | key spread properties started =>
      simp only [fill]
      split <;> trivial
  | item | body | spread | value => trivial

theorem isReadable_start (holes : List Hole) (token : Token) :
    (start limit holes token).IsReadable := by
  unfold start
  split
  · split
    · trivial
    · split <;> trivial
  · trivial
  · split
    · exact isReadable_fill _ holes
    · trivial

theorem Effect.isReadable {opened : Open} {token : Token} {steps : Nat → ReadStep}
    (effect : Effect opened token steps) : (steps limit).IsReadable := by
  cases effect with
  | starts => exact isReadable_start limit _ token
  | closes expr => exact isReadable_fill expr _
  | marks | breaks => trivial

end ReadStep

namespace Expr

theorem readAllOn_ne_unreadable (limit size : Nat) (opened : Open) (finished : List Expr)
    (tokens : List Token) (reason : String) (span : Span) :
    readAllOn limit size opened finished tokens ≠ .error (.unreadable reason span) := by
  induction tokens generalizing opened finished with
  | nil => cases opened <;> simp [readAllOn]
  | cons token rest induction =>
      have readable := (ReadStep.effect_next opened token).isReadable limit
      rw [readAllOn]
      revert readable
      cases ReadStep.next limit opened token with
      | more inside outer => exact fun _ => induction (.bracket inside outer) finished
      | done expr => exact fun _ => induction .nothing (expr :: finished)
      | wrong error unread =>
          intro readable same
          cases same
          exact readable

end Expr

theorem Tiles.of_scan (source : String) : Tiles source (Token.scan source) := by
  have tiled := Scan.HasTiled.start.read source.toList
  rw [String.ofList_toList, String.empty_append] at tiled
  rw [Token.scan_eq_ofChars]
  exact tiled.tiles_closed

/-- The lexer reads every source to its end. Its tokens are those of a scan and tile the source, so
reading a source never fails for the lack of them. -/
theorem Lexer.tokenize_tiles_every_source (source : String) :
    ∃ tokens, Lexer.tokenize source = .ok tokens ∧ tokens = Token.ofChars source.toList ∧
      Tiles source tokens ∧
      ∀ limit reason span, Expr.parse limit source ≠ .error (.unreadable reason span) := by
  refine ⟨Token.scan source, tokenize_eq_ok source, Token.scan_eq_ofChars source, ?_, ?_⟩
  · exact Tiles.of_scan source
  · intro limit reason span
    rw [Expr.parse_eq_readAll]
    exact Expr.readAllOn_ne_unreadable limit _ .nothing [] _ reason span

end RuleLisp
