/-! # Lines and columns

A place in a source, given as a count of bytes, is shown to people as a line and a column. Both
count from one, and a column counts characters. Places past the end belong to the last line, and
a place inside a character counts as the place after that character.
-/

namespace RuleLisp

/-- A line and a column, both counted from one. -/
structure Position where
  line : Nat
  column : Nat
deriving DecidableEq, Repr, Inhabited

namespace Position

def first : Position :=
  ⟨1, 1⟩

def after (position : Position) (char : Char) : Position :=
  if char = '\n' then ⟨position.line + 1, 1⟩ else ⟨position.line, position.column + 1⟩

/-- Walks over the characters that start within the next `bytes` bytes. -/
def walk (position : Position) : List Char → (bytes : Nat) → Position
  | [], _ => position
  | char :: rest, bytes =>
      if bytes = 0 then position
      else walk (position.after char) rest (bytes - char.utf8Size)

def ofOffset (source : List Char) (offset : Nat) : Position :=
  first.walk source offset

example : ofOffset "(set x 5)\n(+ x 1)".toList 13 = ⟨2, 4⟩ := by decide

example : ofOffset "é\nz".toList 1 = ⟨1, 2⟩ ∧ ofOffset "é\nz".toList 99 = ⟨2, 2⟩ := by decide

end Position

/-- The characters of the line with the given index, counted from zero, without its line break. -/
def lineText : (index : Nat) → List Char → Option (List Char)
  | 0, source => some (source.takeWhile (· ≠ '\n'))
  | index + 1, source =>
      match source.dropWhile (· ≠ '\n') with
      | [] => none
      | _ :: rest => lineText index rest

example : lineText 1 "ab\ncd".toList = some "cd".toList ∧ lineText 1 "ab\n".toList = some [] ∧
    lineText 2 "ab\n".toList = none := by decide

end RuleLisp
