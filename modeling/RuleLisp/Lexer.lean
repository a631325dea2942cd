import RuleLisp.ParseError
import RuleLisp.Token

/-! # Reading tokens

Tokens are taken off the front of a source as long as there is one, with the blanks around it. Then
nothing may be left. The parsers for this take at least one character each time they succeed, so one
of them can be repeated until it fails. Alternatives are tried in order, and nothing that has been
taken is given back.
-/

namespace RuleLisp.Lexer

/-- A source from some byte of it on. -/
structure Input where
  offset : Nat
  chars : List Char
deriving DecidableEq, Repr

structure Taken (input : Input) (α : Type) where
  item : α
  rest : Input
  shorter : rest.chars.length < input.chars.length

def Parser (α : Type) : Type :=
  (input : Input) → Option (Taken input α)

/-! ## Parsers -/

namespace Parser

variable {α β : Type}

def ofChar (meaning? : Char → Option α) : Parser α
  | ⟨_, []⟩ => none
  | ⟨offset, first :: rest⟩ =>
      (meaning? first).map fun item =>
        ⟨item, ⟨offset + first.utf8Size, rest⟩, Nat.lt_succ_self _⟩

def char (accepts : Char → Bool) : Parser Char :=
  ofChar (Option.guard accepts)

def map (change : α → β) (parser : Parser α) : Parser β :=
  fun input => (parser input).map fun taken => ⟨change taken.item, taken.rest, taken.shorter⟩

def or (first second : Parser α) : Parser α :=
  fun input => (first input).orElse fun _ => second input

/-- Takes what a parser accepts until it fails, after the items at hand, the newest first. -/
def repeatOn (parser : Parser α) (found : List α) (input : Input) : List α × Input :=
  match parser input with
  | none => (found.reverse, input)
  | some taken => parser.repeatOn (taken.item :: found) taken.rest
termination_by input.chars.length
decreasing_by exact taken.shorter

theorem length_repeatOn_le (parser : Parser α) (found : List α) (input : Input) :
    (parser.repeatOn found input).2.chars.length ≤ input.chars.length := by
  fun_induction repeatOn parser found input with
  | case1 => exact Nat.le_refl _
  | case2 found input taken _ induction => exact Nat.le_trans induction (Nat.le_of_lt taken.shorter)

def atLeastOne (parser : Parser α) : Parser (List α) :=
  fun input => (parser input).map fun first =>
    let more := parser.repeatOn [first.item] first.rest
    ⟨more.1, more.2, Nat.lt_of_le_of_lt (length_repeatOn_le ..) first.shorter⟩

end Parser

/-! ## Words and brackets -/

def skipBlanks (input : Input) : Input :=
  ((Parser.char Text.isBlank).repeatOn [] input).2

def mark : Parser Char :=
  Parser.char (· = '"')

/-- A quoted run with its quotation marks. Without a second mark it goes on to the end. -/
def quoted : Parser (List Char) :=
  fun input => (mark input).map fun opened =>
    let inside := (Parser.char (· ≠ '"')).repeatOn [] opened.rest
    have within : inside.2.chars.length < input.chars.length :=
      Nat.lt_of_le_of_lt (Parser.length_repeatOn_le ..) opened.shorter
    match mark inside.2 with
    | some closed =>
        ⟨opened.item :: (inside.1 ++ [closed.item]), closed.rest,
          Nat.lt_trans closed.shorter within⟩
    | none => ⟨opened.item :: inside.1, inside.2, within⟩

def isBare (char : Char) : Bool :=
  Lexeme.bracket? char = none && char ≠ '"' && !Text.isBlank char

def piece : Parser (List Char) :=
  quoted.or ((Parser.char isBare).map ([·]))

def lexeme : Parser Lexeme :=
  (Parser.ofChar Lexeme.bracket?).or
    (piece.atLeastOne.map fun pieces => .word (String.ofList pieces.flatten))

/-- A token with the blanks around it, which are not in its span. -/
def token : Parser Token :=
  fun input =>
    let start := skipBlanks input
    (lexeme start).map fun taken =>
      ⟨⟨taken.item, ⟨start.offset, taken.rest.offset⟩⟩, skipBlanks taken.rest,
        Nat.lt_of_le_of_lt (Parser.length_repeatOn_le ..)
          (Nat.lt_of_lt_of_le taken.shorter (Parser.length_repeatOn_le ..))⟩

/-! ## Sources -/

abbrev Fault :=
  String × Span

def front (source : String) : List Token × Input :=
  token.repeatOn [] (skipBlanks ⟨0, source.toList⟩)

def run (source : String) : Except (List Fault) (List Token) :=
  let found := front source
  let rest := skipBlanks found.2
  match rest.chars with
  | [] => .ok found.1
  | first :: _ =>
      .error [("found '" ++ first.toString ++ "' expected end of input",
        ⟨rest.offset, rest.offset + first.utf8Size⟩)]

def tokenize (source : String) : Except ParseError (List Token) :=
  match run source with
  | .ok tokens => .ok tokens
  | .error faults =>
      let (reason, span) := faults.head?.getD ("invalid input", .point 0)
      .error (.unreadable reason span)

end RuleLisp.Lexer
