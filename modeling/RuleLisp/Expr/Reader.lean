import RuleLisp.Expr.Printer
import RuleLisp.Lexer

/-! # Reading expressions

Expressions are read from tokens one token at a time. Of the brackets that are still open, the
innermost one is known by what has been read inside it, and each outer one by the *hole* that the
next inner bracket will fill. A token opens a bracket, fills the innermost hole or is an error, so
a source of any depth is read in one pass over its tokens.
-/

namespace RuleLisp

/-- The place inside an open bracket that the expression being read will fill. -/
inductive Hole where
  /-- The next item of a list, after the given items, the newest first. -/
  | item (opened : Span) (items : List Expr)
  /-- The signature of a definition, which starts at the given bracket. -/
  | signature (opened : Span) (bracket : Span)
  | body (name : String) (params : List String)
  | spread
  /-- The next key of an object literal, which starts at the given token. -/
  | key (spread : Option Expr) (properties : Table Expr) (started : Span)
  | value (spread : Option Expr) (properties : Table Expr) (key : String)

namespace Hole

def shape : Hole → Shape
  | item .. | signature .. | body .. => .round
  | spread | key .. | value .. => .curly

end Hole

/-- What has been read inside the innermost open bracket, between two of its expressions. -/
inductive Inside where
  /-- A list with its items so far, the newest first. -/
  | list (opened : Span) (items : List Expr)
  /-- A definition without its signature. -/
  | definition (opened : Span)
  /-- A definition with its signature. -/
  | signed (opened : Span) (name : String) (params : List String)
  /-- A definition that only lacks its closing bracket. -/
  | defined (name : String) (params : List String) (body : Expr)
  /-- An object literal of which nothing has been read. -/
  | object
  /-- An object literal that will extend the next expression. -/
  | spreading
  /-- An object literal between two properties. -/
  | properties (spread : Option Expr) (properties : Table Expr)
  /-- An object literal between a key and its value. -/
  | keyed (spread : Option Expr) (properties : Table Expr) (key : String)

namespace Inside

def shape : Inside → Shape
  | list .. | definition .. | signed .. | defined .. => .round
  | object | spreading | properties .. | keyed .. => .curly

end Inside

/-- The open brackets: none at the top level, or the innermost and the holes of the others. -/
inductive Open where
  | nothing
  | bracket (inside : Inside) (outer : List Hole)

namespace Open

def depth : Open → Nat
  | nothing => 0
  | bracket _ outer => outer.length + 1

/-- The bracket that has to close first. At the top level a list is expected. -/
def expectedCloser : Open → Char
  | nothing => Shape.round.closer
  | bracket inside _ => inside.shape.closer

end Open

inductive ReadStep where
  | more (inside : Inside) (outer : List Hole)
  | done (expr : Expr)
  /-- The token is wrong. It stays unread if it might start another expression. -/
  | wrong (error : ParseError) (unread : Bool)

namespace ReadStep

/-! ## Filling a hole -/

def signatureReason : String :=
  "expected a `(name param ...)` signature"

def signatureNames : List Expr → Except String (List String)
  | [] => .ok []
  | item :: rest =>
      match item.symbol? with
      | none => .error ("`" ++ item.render ++ "` is not a valid parameter name")
      | some name =>
          match signatureNames rest with
          | .error reason => .error reason
          | .ok names => .ok (name :: names)

def sign (opened bracket : Span) (outer : List Hole) : Expr → ReadStep
  | .list items =>
      match signatureNames items with
      | .error reason => .wrong (.invalidDefinition reason bracket) false
      | .ok [] => .wrong (.invalidDefinition "the signature needs a function name" bracket) false
      | .ok (name :: params) => .more (.signed opened name params) outer
  | _ => .wrong (.invalidDefinition signatureReason bracket) false

def fill (expr : Expr) : List Hole → ReadStep
  | [] => .done expr
  | .item opened items :: outer => .more (.list opened (expr :: items)) outer
  | .signature opened bracket :: outer => sign opened bracket outer expr
  | .body name params :: outer => .more (.defined name params expr) outer
  | .spread :: outer => .more (.properties (some expr) []) outer
  | .key spread properties started :: outer =>
      match expr.text? with
      | some key => .more (.keyed spread properties key) outer
      | none => .wrong (.invalidKey expr.render started) false
  | .value spread properties key :: outer =>
      .more (.properties spread (Table.insert key expr properties)) outer

/-! ## Reading one token -/

def start (limit : Nat) (holes : List Hole) (token : Token) : ReadStep :=
  match token.lexeme with
  | .opening shape =>
      if limit ≤ holes.length then .wrong (.nestingTooDeep limit token.span) false
      else
        match shape with
        | .round => .more (.list token.span []) holes
        | .curly => .more .object holes
  | .closing shape => .wrong (.unexpectedClosing shape.closer token.span) false
  | .word word =>
      match Atom.ofWord? word with
      | some atom => fill (.atom atom) holes
      | none => .wrong (.unterminatedString token.span) false

def property (limit : Nat) (spread : Option Expr) (properties : Table Expr) (outer : List Hole)
    (token : Token) : ReadStep :=
  if token.lexeme = .closing .curly then fill (.object spread properties) outer
  else start limit (.key spread properties token.span :: outer) token

def nextInside (limit : Nat) (inside : Inside) (outer : List Hole) (token : Token) : ReadStep :=
  match inside with
  | .list opened items =>
      if token.lexeme = .closing .round then fill (.list items.reverse) outer
      else if items.isEmpty ∧ token.lexeme = .word Expr.functionWord then
        .more (.definition opened) outer
      else start limit (.item opened items :: outer) token
  | .definition opened =>
      if token.lexeme = .opening .round then
        start limit (.signature opened token.span :: outer) token
      else .wrong (.invalidDefinition signatureReason token.span) true
  | .signed opened name params =>
      if token.lexeme = .closing .round then
        .wrong (.invalidDefinition "missing function body" (opened.merge token.span)) true
      else start limit (.body name params :: outer) token
  | .defined name params body =>
      if token.lexeme = .closing .round then fill (.function name params body) outer
      else
        .wrong (.invalidDefinition "a function has exactly one body expression" token.span) true
  | .object =>
      if token.lexeme = .word Expr.spreadWord then .more .spreading outer
      else property limit none [] outer token
  | .spreading => start limit (.spread :: outer) token
  | .properties spread properties => property limit spread properties outer token
  | .keyed spread properties key => start limit (.value spread properties key :: outer) token

def next (limit : Nat) (opened : Open) (token : Token) : ReadStep :=
  match opened with
  | .nothing => start limit [] token
  | .bracket inside outer => nextInside limit inside outer token

/-! ## What a token does -/

/-- The effects of a token under each limit. Only where the token starts an expression does the
limit matter. -/
inductive Effect (opened : Open) (token : Token) : (Nat → ReadStep) → Prop
  | starts {holes : List Hole} (depth : holes.length = opened.depth) :
      Effect opened token fun limit => start limit holes token
  | closes {inside : Inside} {outer : List Hole} {shape : Shape} (expr : Expr)
      (place : opened = .bracket inside outer) (closing : token.lexeme = .closing shape) :
      Effect opened token fun _ => fill expr outer
  | marks {inside : Inside} {outer : List Hole} {text : String} (following : Inside)
      (place : opened = .bracket inside outer) (word : token.lexeme = .word text) :
      Effect opened token fun _ => .more following outer
  | breaks (reason : String) (span : Span) :
      Effect opened token fun _ => .wrong (.invalidDefinition reason span) true

theorem effect_property (inside : Inside) (outer : List Hole) (spread : Option Expr)
    (properties : Table Expr) (token : Token) :
    Effect (.bracket inside outer) token fun limit =>
      property limit spread properties outer token := by
  unfold property
  by_cases closing : token.lexeme = .closing .curly
  · simp only [closing, if_true]
    exact .closes _ rfl closing
  · simp only [closing, if_false]
    exact .starts rfl

theorem effect_next (opened : Open) (token : Token) :
    Effect opened token fun limit => next limit opened token := by
  rcases opened with _ | ⟨inside, outer⟩
  · exact .starts rfl
  simp only [next]
  unfold nextInside
  cases inside with
  | list opened items =>
      by_cases closing : token.lexeme = .closing .round
      · simp only [closing, if_true]
        exact .closes _ rfl closing
      by_cases definition : items.isEmpty ∧ token.lexeme = .word Expr.functionWord
      · simp only [definition, and_self, if_true, reduceCtorEq, if_false]
        exact .marks _ rfl definition.2
      · simp only [closing, definition, if_false]
        exact .starts rfl
  | definition opened =>
      by_cases opening : token.lexeme = .opening .round
      · simp only [opening, if_true]
        exact .starts rfl
      · simp only [opening, if_false]
        exact .breaks _ _
  | signed opened name params =>
      by_cases closing : token.lexeme = .closing .round
      · simp only [closing, if_true]
        exact .breaks _ _
      · simp only [closing, if_false]
        exact .starts rfl
  | defined name params body =>
      by_cases closing : token.lexeme = .closing .round
      · simp only [closing, if_true]
        exact .closes _ rfl closing
      · simp only [closing, if_false]
        exact .breaks _ _
  | object =>
      by_cases spread : token.lexeme = .word Expr.spreadWord
      · simp only [spread, if_true]
        exact .marks _ rfl spread
      · simp only [spread, if_false]
        exact effect_property _ outer none [] token
  | spreading => exact .starts rfl
  | properties spread properties => exact effect_property _ outer spread properties token
  | keyed spread properties key => exact .starts rfl

end ReadStep

namespace Expr

/-! ## Reading rows of tokens

The end of the tokens is the place `size`, the number of bytes of the source. -/

/-- Reads on until an expression is complete. It gives the result and the tokens that are left. -/
def readOn (limit size : Nat) (opened : Open) :
    List Token → Except ParseError Expr × List Token
  | [] => (.error (.unexpectedEnd opened.expectedCloser (.point size)), [])
  | token :: rest =>
      match ReadStep.next limit opened token with
      | .more inside outer => readOn limit size (.bracket inside outer) rest
      | .done expr => (.ok expr, rest)
      | .wrong error unread => (.error error, if unread then token :: rest else rest)

def readFirst (limit size : Nat) (tokens : List Token) : Except ParseError Expr × List Token :=
  readOn limit size .nothing tokens

/-- Reads on to the end of the tokens, with the finished expressions at hand, the newest first. -/
def readAllOn (limit size : Nat) (opened : Open) (finished : List Expr) :
    List Token → Except ParseError (List Expr)
  | [] =>
      match opened with
      | .nothing => .ok finished.reverse
      | .bracket .. => .error (.unexpectedEnd opened.expectedCloser (.point size))
  | token :: rest =>
      match ReadStep.next limit opened token with
      | .more inside outer => readAllOn limit size (.bracket inside outer) finished rest
      | .done expr => readAllOn limit size .nothing (expr :: finished) rest
      | .wrong error _ => .error error

def readAll (limit size : Nat) (tokens : List Token) : Except ParseError (List Expr) :=
  readAllOn limit size .nothing [] tokens

/-- The depth to which brackets and evaluation may nest where nothing else is said. -/
def defaultLimit : Nat :=
  10000

def parse (limit : Nat) (source : String) : Except ParseError (List Expr) := do
  let tokens ← Lexer.tokenize source
  readAll limit source.utf8ByteSize tokens

end Expr

end RuleLisp
