import RuleLisp.Expr.Reader

/-! # Reading expression by expression

A reader that is asked for one expression after the other keeps its place among the tokens and
counts the brackets that it is inside of. Each kind of bracket has a rule of its own, and the rules
call each other. An error leaves the reader where it was found, and the next expression is read
from there on.

A rule may call another one on the same tokens, but only a rule of a lower rank, so every rule comes
to an end.
-/

namespace RuleLisp

structure TokenReader where
  tokens : Array Token
  /-- How many tokens have been taken. -/
  place : Nat
  /-- The number of bytes of the source, where the tokens end. -/
  size : Nat
  /-- How many brackets the reader is inside of. -/
  depth : Nat
  limit : Nat
  within : place ≤ tokens.size

namespace TokenReader

def ofTokens (tokens : List Token) (size limit : Nat) : TokenReader :=
  ⟨tokens.toArray, 0, size, 0, limit, Nat.zero_le _⟩

def unread (reader : TokenReader) : List Token :=
  reader.tokens.toList.drop reader.place

def next? (reader : TokenReader) : Option Token :=
  reader.tokens[reader.place]?

def advance (reader : TokenReader) : TokenReader :=
  if remains : reader.place < reader.tokens.size then
    { reader with place := reader.place + 1, within := remains }
  else reader

def deeper (reader : TokenReader) : TokenReader :=
  { reader with depth := reader.depth + 1 }

def shallower (reader : TokenReader) : TokenReader :=
  { reader with depth := reader.depth - 1 }

theorem unread_advance (reader : TokenReader) : reader.advance.unread = reader.unread.tail := by
  by_cases remains : reader.place < reader.tokens.size
  · simp [advance, remains, unread]
  · have nothing : reader.unread = [] := by simp [unread, Nat.le_of_not_lt remains]
    rw [advance, dif_neg remains, nothing, List.tail_nil]

theorem length_unread_advance_le (reader : TokenReader) :
    reader.advance.unread.length ≤ reader.unread.length := by
  rw [unread_advance, List.length_tail]
  exact Nat.sub_le _ _

theorem next?_eq_head? (reader : TokenReader) : reader.next? = reader.unread.head? := by
  simp [next?, unread]

theorem length_unread_advance_lt {reader : TokenReader} {token : Token}
    (upcomes : reader.next? = some token) :
    reader.advance.unread.length < reader.unread.length := by
  rw [next?_eq_head?, List.head?_eq_some_iff] at upcomes
  obtain ⟨rest, unread⟩ := upcomes
  rw [unread_advance, unread]
  exact Nat.lt_succ_self _

end TokenReader

/-- What is read from a reader, and where it leaves the reader. No token is given back. -/
structure Reading (before : TokenReader) where
  outcome : Except ParseError Expr
  after : TokenReader
  onward : after.unread.length ≤ before.unread.length

namespace Reading

def fail (reader : TokenReader) (error : ParseError) : Reading reader :=
  ⟨.error error, reader, Nat.le_refl _⟩

def complete (reader : TokenReader) (expr : Expr) : Reading reader :=
  ⟨.ok expr, reader.advance, reader.length_unread_advance_le⟩

def skip {reader : TokenReader} (rest : Reading reader.advance) : Reading reader :=
  ⟨rest.outcome, rest.after, Nat.le_trans rest.onward reader.length_unread_advance_le⟩

def leave {reader : TokenReader} (inside : Reading reader.deeper) : Reading reader :=
  ⟨inside.outcome, inside.after.shallower, inside.onward⟩

/-- Looks at the next token inside a bracket, which stays open if there is none. -/
def upcoming (shape : Shape) (reader : TokenReader)
    (next : (token : Token) → reader.advance.unread.length < reader.unread.length →
      Reading reader) : Reading reader :=
  match upcomes : reader.next? with
  | some token => next token (TokenReader.length_unread_advance_lt upcomes)
  | none => fail reader (.unexpectedEnd shape.closer (.point reader.size))

def andThen {reader : TokenReader} (first : Reading reader.advance)
    (next : (expr : Expr) → (after : TokenReader) →
      after.unread.length ≤ reader.advance.unread.length → Reading after) : Reading reader :=
  match first.outcome with
  | .error error => skip ⟨.error error, first.after, first.onward⟩
  | .ok expr =>
      let rest := next expr first.after first.onward
      skip ⟨rest.outcome, rest.after, Nat.le_trans rest.onward first.onward⟩

def signature (bracket : Span) : Expr → Except ParseError (String × List String)
  | .list items =>
      match ReadStep.signatureNames items with
      | .error reason => .error (.invalidDefinition reason bracket)
      | .ok [] => .error (.invalidDefinition "the signature needs a function name" bracket)
      | .ok (name :: params) => .ok (name, params)
  | _ => .error (.invalidDefinition ReadStep.signatureReason bracket)

def conclusion (name : String) (params : List String) (body : Expr) (reader : TokenReader) :
    Reading reader :=
  upcoming .round reader fun token _ =>
    if token.lexeme = .closing .round then complete reader (.function name params body)
    else
      fail reader (.invalidDefinition "a function has exactly one body expression" token.span)

mutual

/-- Reads an expression, for which a token is taken if there is one. -/
def expression (reader : TokenReader) : Reading reader.advance :=
  match upcomes : reader.next? with
  | some token =>
      have := TokenReader.length_unread_advance_lt upcomes
      expressionFrom token reader.advance
  | none => fail reader.advance (.unexpectedEnd Shape.round.closer (.point reader.size))
termination_by (reader.unread.length, 0)

def expressionFrom (token : Token) (reader : TokenReader) : Reading reader :=
  match token.lexeme with
  | .opening shape =>
      if reader.limit ≤ reader.depth then
        fail reader (.nestingTooDeep reader.limit token.span)
      else leave (contents shape token.span reader.deeper)
  | .closing shape => fail reader (.unexpectedClosing shape.closer token.span)
  | .word word =>
      match Atom.ofWord? word with
      | some atom => ⟨.ok (.atom atom), reader, Nat.le_refl _⟩
      | none => fail reader (.unterminatedString token.span)
termination_by (reader.unread.length, 4)

def contents (shape : Shape) (opened : Span) (reader : TokenReader) : Reading reader :=
  match shape with
  | .round => list opened reader
  | .curly => object reader
termination_by (reader.unread.length, 3)

def list (opened : Span) (reader : TokenReader) : Reading reader :=
  upcoming .round reader fun token _ =>
    if token.lexeme = .word Expr.functionWord then skip (definition opened reader.advance)
    else items [] reader
termination_by (reader.unread.length, 2)

def items (earlier : List Expr) (reader : TokenReader) : Reading reader :=
  upcoming .round reader fun token _ =>
    if token.lexeme = .closing .round then complete reader (.list earlier.reverse)
    else andThen (expression reader) fun item after _ => items (item :: earlier) after
termination_by (reader.unread.length, 1)

def definition (opened : Span) (reader : TokenReader) : Reading reader :=
  upcoming .round reader fun token _ =>
    if token.lexeme = .opening .round then
      andThen (expression reader) fun expr after _ =>
        match signature token.span expr with
        | .error error => fail after error
        | .ok (name, params) => body opened name params after
    else fail reader (.invalidDefinition ReadStep.signatureReason token.span)
termination_by (reader.unread.length, 1)

def body (opened : Span) (name : String) (params : List String) (reader : TokenReader) :
    Reading reader :=
  upcoming .round reader fun token _ =>
    if token.lexeme = .closing .round then
      fail reader (.invalidDefinition "missing function body" (opened.merge token.span))
    else andThen (expression reader) fun body after _ => conclusion name params body after
termination_by (reader.unread.length, 1)

def object (reader : TokenReader) : Reading reader :=
  upcoming .curly reader fun token _ =>
    if token.lexeme = .word Expr.spreadWord then
      skip (upcoming .curly reader.advance fun _ _ =>
        andThen (expression reader.advance) fun base after _ => properties (some base) [] after)
    else properties none [] reader
termination_by (reader.unread.length, 2)

def properties (spread : Option Expr) (earlier : Table Expr) (reader : TokenReader) :
    Reading reader :=
  upcoming .curly reader fun token _ =>
    if token.lexeme = .closing .curly then complete reader (.object spread earlier)
    else
      andThen (expression reader) fun key between _ =>
        match key.text? with
        | none => fail between (.invalidKey key.render token.span)
        | some name =>
            upcoming .curly between fun _ _ =>
              andThen (expression between) fun value after _ =>
                properties spread (Table.insert name value earlier) after
termination_by (reader.unread.length, 1)

end

end Reading

namespace TokenReader

def read (reader : TokenReader) : Except ParseError Expr × TokenReader :=
  let reading := Reading.expression reader
  (reading.outcome, reading.after)

/-- Reads a number of expressions one after the other, whether or not they have errors. -/
def readTimes : (count : Nat) → TokenReader → List (Except ParseError Expr) × TokenReader
  | 0, reader => ([], reader)
  | count + 1, reader =>
      let (outcome, between) := reader.read
      let (outcomes, after) := between.readTimes count
      (outcome :: outcomes, after)

end TokenReader

end RuleLisp
