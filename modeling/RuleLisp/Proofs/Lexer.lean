import RuleLisp.Expr.Reader
import RuleLisp.Proofs.Token.Scan

/-! # The lexer and the scan

The lexer takes the same tokens off a source as a scan of all its characters gives, and it leaves
nothing: where no token starts there are only blanks up to the end. So reading tokens never fails.
-/

namespace RuleLisp

namespace Lexer

/-! ## Parsers -/

namespace Parser

variable {α β : Type} {input : Input}

/-- A parser that is repeated takes the items one after the other and fails on what is left. -/
inductive Takes (parser : Parser α) : Input → List α → Input → Prop
  | stop {input : Input} (fails : parser input = none) : Takes parser input [] input
  | next {input rest : Input} {items : List α} {taken : Taken input α}
      (accepts : parser input = some taken) (others : Takes parser taken.rest items rest) :
      Takes parser input (taken.item :: items) rest

theorem takes_repeatOn (parser : Parser α) (found : List α) (input : Input) :
    ∃ items, (parser.repeatOn found input).1 = found.reverse ++ items ∧
      Takes parser input items (parser.repeatOn found input).2 := by
  fun_induction repeatOn parser found input with
  | case1 found input fails => exact ⟨[], (List.append_nil _).symm, .stop fails⟩
  | case2 found input taken accepts induction =>
      rcases induction with ⟨items, same, others⟩
      rw [List.reverse_cons, List.append_assoc] at same
      exact ⟨taken.item :: items, same, .next accepts others⟩

/-- What a new repetition takes. -/
theorem takes_repeatOn_nil (parser : Parser α) (input : Input) :
    Takes parser input (parser.repeatOn [] input).1 (parser.repeatOn [] input).2 := by
  rcases takes_repeatOn parser [] input with ⟨items, same, takes⟩
  rw [same]
  exact takes

theorem Takes.fails {parser : Parser α} {items : List α} {rest : Input}
    (takes : Takes parser input items rest) : parser rest = none := by
  induction takes with
  | stop fails => exact fails
  | next _ _ induction => exact induction

theorem ofChar_eq_some {meaning? : Char → Option α} {taken : Taken input α}
    (accepts : ofChar meaning? input = some taken) :
    ∃ first, meaning? first = some taken.item ∧ input.chars = first :: taken.rest.chars ∧
      taken.rest.offset = input.offset + first.utf8Size := by
  rcases input with ⟨offset, _ | ⟨first, chars⟩⟩
  · cases accepts
  · rcases Option.map_eq_some_iff.mp accepts with ⟨item, meant, rfl⟩
    exact ⟨first, meant, rfl, rfl⟩

theorem ofChar_eq_none_iff {meaning? : Char → Option α} :
    ofChar meaning? input = none ↔ ∀ first ∈ input.chars.head?, meaning? first = none := by
  rcases input with ⟨offset, _ | ⟨first, chars⟩⟩
  · simp [ofChar]
  · simp [ofChar]

theorem char_eq_some {accepts : Char → Bool} {taken : Taken input Char}
    (accepted : char accepts input = some taken) :
    accepts taken.item = true ∧ input.chars = taken.item :: taken.rest.chars ∧
      taken.rest.offset = input.offset + taken.item.utf8Size := by
  rcases ofChar_eq_some accepted with ⟨first, meant, chars, offset⟩
  rcases Option.guard_eq_some_iff.mp meant with ⟨rfl, holds⟩
  exact ⟨holds, chars, offset⟩

theorem char_eq_none_iff {accepts : Char → Bool} :
    char accepts input = none ↔ ∀ first ∈ input.chars.head?, accepts first = false := by
  simp [char, ofChar_eq_none_iff]

theorem map_eq_some {change : α → β} {parser : Parser α} {taken : Taken input β}
    (accepts : parser.map change input = some taken) :
    ∃ inner, parser input = some inner ∧ change inner.item = taken.item ∧
      inner.rest = taken.rest := by
  rcases Option.map_eq_some_iff.mp accepts with ⟨inner, accepted, rfl⟩
  exact ⟨inner, accepted, rfl, rfl⟩

theorem map_eq_none_iff {change : α → β} {parser : Parser α} :
    parser.map change input = none ↔ parser input = none :=
  Option.map_eq_none_iff

theorem or_eq_some {first second : Parser α} {taken : Taken input α}
    (accepts : first.or second input = some taken) :
    first input = some taken ∨ first input = none ∧ second input = some taken := by
  rw [or] at accepts
  cases accepted : first input with
  | none =>
      rw [accepted] at accepts
      exact .inr ⟨rfl, accepts⟩
  | some inner =>
      rw [accepted] at accepts
      exact .inl accepts

theorem or_eq_none_iff {first second : Parser α} :
    first.or second input = none ↔ first input = none ∧ second input = none := by
  rw [or]
  cases first input with
  | none => simp
  | some inner => simp

theorem atLeastOne_eq_some {parser : Parser α} {taken : Taken input (List α)}
    (accepts : parser.atLeastOne input = some taken) :
    ∃ first items, parser input = some first ∧ taken.item = first.item :: items ∧
      Takes parser first.rest items taken.rest := by
  rcases Option.map_eq_some_iff.mp accepts with ⟨first, accepted, rfl⟩
  rcases takes_repeatOn parser [first.item] first.rest with ⟨items, same, takes⟩
  exact ⟨first, items, accepted, same, takes⟩

end Parser

open RuleLisp.Lexer.Parser

/-- The tokens that a scan has found at the end of an input, the newest first. -/
def Input.scan (input : Input) (current : Option OpenWord) (before : List Token) : List Token :=
  (Scan.read ⟨input.offset, current, before⟩ input.chars).closed

theorem Input.scan_of_chars_eq_cons {input : Input} {next : Char} {others : List Char}
    (chars : input.chars = next :: others) (current : Option OpenWord) (before : List Token) :
    input.scan current before =
      ((Scan.next ⟨input.offset, current, before⟩ next).read others).closed := by
  rw [scan, chars]
  rfl

theorem Input.scan_step {input rest : Input} {first : Char}
    (chars : input.chars = first :: rest.chars) {current current' : Option OpenWord}
    {before before' : List Token}
    (next : Scan.next ⟨input.offset, current, before⟩ first = ⟨rest.offset, current', before'⟩) :
    input.scan current before = rest.scan current' before' := by
  rw [scan_of_chars_eq_cons chars, next, scan]

/-! ## Blanks -/

theorem isBlank_head?_skipBlanks (input : Input) :
    ∀ first ∈ (skipBlanks input).chars.head?, Text.isBlank first = false :=
  char_eq_none_iff.mp (takes_repeatOn_nil (char Text.isBlank) input).fails

theorem scan_blanks {input rest : Input} {blanks : List Char}
    (takes : Takes (char Text.isBlank) input blanks rest) (before : List Token) :
    input.scan none before = rest.scan none before := by
  induction takes with
  | stop => rfl
  | next accepts _ induction =>
      rcases char_eq_some accepts with ⟨blank, chars, offset⟩
      rw [← induction]
      apply Input.scan_step chars
      rw [Scan.next_of_isBlank rfl blank, offset]
      rfl

theorem scan_skipBlanks (input : Input) (before : List Token) :
    (skipBlanks input).scan none before = input.scan none before :=
  (scan_blanks (takes_repeatOn_nil (char Text.isBlank) input) before).symm

/-! ## Words -/

variable {input rest : Input} (first : Nat) (chars : List Char) (before : List Token)

/-- A mark opens a quoted run, and all up to the next mark belongs to the word. -/
theorem scan_inside {inside : List Char} (takes : Takes (char (· ≠ '"')) input inside rest) :
    input.scan (some ⟨first, chars, true⟩) before =
      rest.scan (some ⟨first, inside.reverse ++ chars, true⟩) before := by
  induction takes generalizing chars with
  | stop => rfl
  | @next input rest inside taken accepts _ induction =>
      rcases char_eq_some accepts with ⟨unmarked, inputChars, offset⟩
      rw [List.reverse_cons, List.append_assoc]
      refine .trans (Input.scan_step inputChars ?_) (induction (taken.item :: chars))
      simp_all [Scan.next, Scan.isQuoted, Scan.extend]

theorem scan_mark {quoted : Bool} {taken : Taken input Char} (accepts : mark input = some taken) :
    input.scan (some ⟨first, chars, quoted⟩) before =
      taken.rest.scan (some ⟨first, taken.item :: chars, !quoted⟩) before := by
  rcases char_eq_some accepts with ⟨marked, inputChars, offset⟩
  apply Input.scan_step inputChars
  rw [decide_eq_true_eq] at marked
  rw [marked] at offset ⊢
  rw [Scan.next_eq_extend (.inr ⟨Scan.bracket?_mark, Scan.isBlank_mark⟩), offset]
  simp [Scan.extend]

/-- At the end of an input it does not matter whether a quoted run is open. -/
theorem scan_of_chars_eq_nil (ended : input.chars = []) (quoted : Bool) :
    input.scan (some ⟨first, chars, quoted⟩) before =
      input.scan (some ⟨first, chars, false⟩) before := by
  rw [Input.scan, Input.scan, ended]
  rfl

theorem chars_eq_nil_of_no_mark (inside : char (· ≠ '"') input = none)
    (outside : mark input = none) : input.chars = [] := by
  rw [char_eq_none_iff] at inside
  rw [mark, char_eq_none_iff] at outside
  cases chars : input.chars with
  | nil => rfl
  | cons next others => simp_all

theorem scan_quoted {taken : Taken input (List Char)} (accepts : quoted input = some taken) :
    input.scan (some ⟨first, chars, false⟩) before =
      taken.rest.scan (some ⟨first, taken.item.reverse ++ chars, false⟩) before := by
  rcases Option.map_eq_some_iff.mp accepts with ⟨opened, accepted, rfl⟩
  rw [scan_mark first chars before accepted]
  have takes := takes_repeatOn_nil (char (· ≠ '"')) opened.rest
  have inside := scan_inside first (opened.item :: chars) before takes
  refine inside.trans ?_
  dsimp only
  split
  next closed ends =>
    rw [scan_mark _ _ before ends]
    simp
  next unclosed =>
    rw [scan_of_chars_eq_nil _ _ _ (chars_eq_nil_of_no_mark takes.fails unclosed)]
    simp

theorem isBare_iff {next : Char} :
    isBare next = true ↔
      Lexeme.bracket? next = none ∧ next ≠ '"' ∧ Text.isBlank next = false := by
  simp [isBare, and_assoc]

theorem scan_piece {taken : Taken input (List Char)} (accepts : piece input = some taken) :
    input.scan (some ⟨first, chars, false⟩) before =
      taken.rest.scan (some ⟨first, taken.item.reverse ++ chars, false⟩) before := by
  rcases or_eq_some accepts with quoted | ⟨_, bare⟩
  · exact scan_quoted first chars before quoted
  · rcases map_eq_some bare with ⟨inner, accepted, item, rest⟩
    rcases char_eq_some accepted with ⟨isBare, inputChars, offset⟩
    rcases isBare_iff.mp isBare with ⟨bracket, unmarked, blank⟩
    rw [← item, ← rest]
    apply Input.scan_step inputChars
    rw [Scan.next_eq_extend (.inr ⟨bracket, blank⟩), offset]
    simp [Scan.extend, unmarked]

theorem scan_pieces {pieces : List (List Char)} (takes : Takes piece input pieces rest) :
    input.scan (some ⟨first, chars, false⟩) before =
      rest.scan (some ⟨first, pieces.flatten.reverse ++ chars, false⟩) before := by
  induction takes generalizing chars with
  | stop => rfl
  | next accepts _ induction =>
      rw [scan_piece first chars before accepts, induction, List.flatten_cons, List.reverse_append,
        List.append_assoc]

theorem quoted_eq_none_iff : quoted input = none ↔ mark input = none :=
  Option.map_eq_none_iff

/-- No word goes on at a bracket, at a blank or at the end. -/
theorem piece_eq_none_iff :
    piece input = none ↔
      ∀ next ∈ input.chars.head?, Lexeme.bracket? next = none → Text.isBlank next = true := by
  rw [piece, or_eq_none_iff, quoted_eq_none_iff, map_eq_none_iff, mark, char_eq_none_iff,
    char_eq_none_iff]
  cases input.chars with
  | nil => simp
  | cons next others =>
      by_cases marked : next = '"'
      · simp [marked, Scan.bracket?_mark, Scan.isBlank_mark]
      · simp [marked, isBare]

theorem scan_close (ends : piece input = none) :
    input.scan (some ⟨first, chars, false⟩) before =
      input.scan none
        (⟨.word (String.ofList chars.reverse), ⟨first, input.offset⟩⟩ :: before) := by
  rw [piece_eq_none_iff] at ends
  cases inputChars : input.chars with
  | nil =>
      rw [Input.scan, Input.scan, inputChars]
      rfl
  | cons next others =>
      have unquoted :
          Scan.isQuoted ⟨input.offset, some ⟨first, chars, false⟩, before⟩ = false := rfl
      rw [Input.scan_of_chars_eq_cons inputChars, Input.scan_of_chars_eq_cons inputChars]
      cases bracket : Lexeme.bracket? next with
      | some lexeme =>
          rw [Scan.next_of_bracket? unquoted bracket, Scan.next_of_bracket? rfl bracket]
          rfl
      | none =>
          have blank := ends next (by rw [inputChars]; rfl) bracket
          rw [Scan.next_of_isBlank unquoted blank, Scan.next_of_isBlank rfl blank]
          rfl

/-- A word may be opened before its first character is read. -/
theorem scan_open {taken : Taken input (List Char)} (accepts : piece input = some taken) :
    input.scan none before = input.scan (some ⟨input.offset, [], false⟩) before := by
  have starts := mt piece_eq_none_iff.mpr (accepts ▸ Option.some_ne_none taken)
  cases inputChars : input.chars with
  | nil => simp [inputChars] at starts
  | cons next others =>
      have belongs : Lexeme.bracket? next = none ∧ Text.isBlank next = false := by
        simpa [inputChars] using starts
      rw [Input.scan_of_chars_eq_cons inputChars, Input.scan_of_chars_eq_cons inputChars]
      rw [Scan.next_eq_extend (.inr belongs), Scan.next_eq_extend (.inr belongs)]
      simp [Scan.extend]

theorem scan_word {taken : Taken input (List (List Char))}
    (accepts : piece.atLeastOne input = some taken) :
    input.scan none before =
      taken.rest.scan none
        (⟨.word (String.ofList taken.item.flatten), ⟨input.offset, taken.rest.offset⟩⟩ ::
          before) := by
  rcases atLeastOne_eq_some accepts with ⟨opened, pieces, accepted, items, takes⟩
  rw [scan_open before accepted, scan_piece _ _ before accepted, scan_pieces _ _ before takes,
    scan_close _ _ before takes.fails, items]
  simp

/-! ## Tokens -/

theorem scan_lexeme {taken : Taken input Lexeme} (accepts : lexeme input = some taken) :
    input.scan none before =
      taken.rest.scan none (⟨taken.item, ⟨input.offset, taken.rest.offset⟩⟩ :: before) := by
  rcases or_eq_some accepts with bracket | ⟨_, word⟩
  · rcases ofChar_eq_some bracket with ⟨next, meant, chars, offset⟩
    apply Input.scan_step chars
    rw [Scan.next_of_bracket? rfl meant, offset]
    rfl
  · rcases map_eq_some word with ⟨inner, accepted, item, rest⟩
    rw [scan_word before accepted, ← item, ← rest]

/-- A lexeme starts at every character that is not blank. -/
theorem isBlank_of_lexeme_eq_none (fails : lexeme input = none) :
    ∀ next ∈ input.chars.head?, Text.isBlank next = true := by
  rw [lexeme, or_eq_none_iff, ofChar_eq_none_iff, map_eq_none_iff] at fails
  have noPiece : piece input = none := Option.map_eq_none_iff.mp fails.2
  intro next head
  exact piece_eq_none_iff.mp noPiece next head (fails.1 next head)

theorem scan_token {taken : Taken input Token} (accepts : token input = some taken) :
    input.scan none before = taken.rest.scan none (taken.item :: before) := by
  rcases Option.map_eq_some_iff.mp accepts with ⟨inner, accepted, rfl⟩
  rw [scan_skipBlanks inner.rest, ← scan_skipBlanks input, scan_lexeme before accepted]

theorem chars_eq_nil_of_token_eq_none (fails : token input = none) :
    (skipBlanks input).chars = [] := by
  have blank := isBlank_of_lexeme_eq_none (Option.map_eq_none_iff.mp fails)
  have unblank := isBlank_head?_skipBlanks input
  cases chars : (skipBlanks input).chars with
  | nil => rfl
  | cons next others => simp_all

theorem scan_tokens {tokens : List Token} (takes : Takes token input tokens rest) :
    input.scan none before = tokens.reverse ++ before := by
  induction takes generalizing before with
  | stop fails =>
      rw [← scan_skipBlanks, Input.scan, chars_eq_nil_of_token_eq_none fails]
      rfl
  | next accepts _ induction =>
      rw [scan_token before accepts, induction, List.reverse_cons, List.append_assoc]
      rfl

end Lexer

def Token.scan (source : String) : List Token :=
  (Lexer.front source).1

theorem Token.scan_eq_ofChars (source : String) : scan source = ofChars source.toList := by
  have takes := Lexer.Parser.takes_repeatOn_nil Lexer.token (Lexer.skipBlanks ⟨0, source.toList⟩)
  have tokens := Lexer.scan_tokens [] takes
  rw [Lexer.scan_skipBlanks, List.append_nil] at tokens
  rw [scan, Lexer.front, ofChars, ← List.reverse_reverse (Prod.fst _), ← tokens]
  rfl

namespace Lexer

theorem run_eq_ok (source : String) : run source = .ok (Token.scan source) := by
  have takes := Parser.takes_repeatOn_nil token (skipBlanks ⟨0, source.toList⟩)
  have ended : (skipBlanks (front source).2).chars = [] := chars_eq_nil_of_token_eq_none takes.fails
  rw [run]
  simp only [ended]
  rfl

theorem tokenize_eq_ok (source : String) : tokenize source = .ok (Token.scan source) := by
  rw [tokenize, run_eq_ok]

end Lexer

theorem Expr.parse_eq_readAll (limit : Nat) (source : String) :
    parse limit source = readAll limit source.utf8ByteSize (Token.scan source) := by
  rw [parse, Lexer.tokenize_eq_ok]
  rfl

end RuleLisp
