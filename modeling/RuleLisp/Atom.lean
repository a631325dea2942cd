import RuleLisp.Number.Decimal
import RuleLisp.Number.Literal
import RuleLisp.Text.Blank

/-! # Atoms

An atom is what one word of a source means. Three words are constants, a numeric literal is a
number, and a word that is exactly one quoted run is a string without its quotation marks. Every
other word is a symbol.
-/

namespace RuleLisp

inductive Atom where
  | null
  | bool (value : Bool)
  | number (value : Float)
  /-- A quoted text. It is looked up as a name only at the head of a list. -/
  | string (text : String)
  /-- A bare word: a name, or its own text where it names nothing. -/
  | symbol (name : String)

namespace Atom

/-! ## Words to atoms -/

/-- The atom of a word that starts with a quotation mark, given what follows the mark. A lone mark
has no atom. Quoted runs that are glued to other characters make a symbol. -/
def ofQuoted? (word : String) (rest : List Char) : Option Atom :=
  if '"' ∉ rest then none
  else if rest.getLast? = some '"' ∧ '"' ∉ rest.dropLast then
    some (.string (String.ofList rest.dropLast))
  else some (.symbol word)

def ofText? (word : String) : Option Atom :=
  match word.toList with
  | '"' :: rest => ofQuoted? word rest
  | _ => some (.symbol word)

def ofWord? (word : String) : Option Atom :=
  if word = "true" then some (.bool true)
  else if word = "false" then some (.bool false)
  else if word = "null" then some .null
  else
    match Number.Literal.read? word.toList with
    | some literal => some (.number literal.value)
    | none => ofText? word

def text? : Atom → Option String
  | string text => some text
  | symbol name => some name
  | _ => none

def symbol? : Atom → Option String
  | symbol name => some name
  | _ => none

/-! ## Atoms to words -/

def render : Atom → String
  | null => "null"
  | bool true => "true"
  | bool false => "false"
  | number value => Number.text value
  | string text => "\"" ++ text ++ "\""
  | symbol name => name

/-- Whether two atoms are the same. Numbers are compared as numbers. -/
protected def beq : Atom → Atom → Bool
  | null, null => true
  | bool left, bool right => left == right
  | number left, number right => left == right
  | string left, string right => left == right
  | symbol left, symbol right => left == right
  | _, _ => false

instance : BEq Atom :=
  ⟨Atom.beq⟩

end Atom

end RuleLisp
