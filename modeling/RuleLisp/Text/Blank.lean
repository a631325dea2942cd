/-! # Blank characters

The characters that separate words, that may surround a number written as text, and that are
dropped from both ends of an interactive line. They are the characters with the Unicode property
`White_Space`, so the class is wider than the blanks of ASCII.
-/

namespace RuleLisp.Text

/-- First and last code point of each range of blank characters, in increasing order. -/
def blankRanges : List (Nat × Nat) :=
  [(0x9, 0xD), (0x20, 0x20), (0x85, 0x85), (0xA0, 0xA0), (0x1680, 0x1680), (0x2000, 0x200A),
    (0x2028, 0x2029), (0x202F, 0x202F), (0x205F, 0x205F), (0x3000, 0x3000)]

def isBlank (char : Char) : Bool :=
  blankRanges.any fun range => range.1 ≤ char.toNat && char.toNat ≤ range.2

example : isBlank ' ' ∧ isBlank '\n' ∧ isBlank '\x0b' ∧ isBlank '\u3000' := by decide

example : isBlank 'a' = false ∧ isBlank '\u200b' = false ∧ isBlank '\ufeff' = false := by decide

/-- The table lists twenty-five characters. -/
example : (blankRanges.map fun range => range.2 + 1 - range.1).sum = 25 := by decide

def trimStart (text : List Char) : List Char :=
  text.dropWhile isBlank

def trimChars (text : List Char) : List Char :=
  (trimStart (trimStart text).reverse).reverse

def trim (text : String) : String :=
  String.ofList (trimChars text.toList)

end RuleLisp.Text
