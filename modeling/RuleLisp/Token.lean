import RuleLisp.Text.Span
import RuleLisp.Text.Blank

/-! # Tokens

A source is a row of brackets and words. A word ends at a blank character, at a bracket or at the
end of the source, but everything between two quotation marks belongs to the word around them,
blanks and brackets included. A quotation mark without a partner takes the rest of the source into
its word. -/

namespace RuleLisp

inductive Shape where
  | round
  | curly
deriving DecidableEq, Repr

namespace Shape

def opener : Shape → Char
  | round => '('
  | curly => '\x7b'

def closer : Shape → Char
  | round => ')'
  | curly => '\x7d'

end Shape

/-- What a token says, wherever it stands. A word keeps its quotation marks. -/
inductive Lexeme where
  | opening (shape : Shape)
  | closing (shape : Shape)
  | word (text : String)
deriving DecidableEq, Repr

namespace Lexeme

def bracket? (char : Char) : Option Lexeme :=
  if char = '(' then some (.opening .round)
  else if char = ')' then some (.closing .round)
  else if char = '\x7b' then some (.opening .curly)
  else if char = '\x7d' then some (.closing .curly)
  else none

def text : Lexeme → String
  | opening shape => shape.opener.toString
  | closing shape => shape.closer.toString
  | word text => text

def isBracket : Lexeme → Bool
  | word _ => false
  | _ => true

end Lexeme

structure Token where
  lexeme : Lexeme
  span : Span
deriving DecidableEq, Repr

end RuleLisp
