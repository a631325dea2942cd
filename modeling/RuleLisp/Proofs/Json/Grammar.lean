import RuleLisp.Json

/-! # The grammar of JSON

Which texts are JSON, and what tree each of them stands for. The rules say how a tree may be
written and nothing about how a text is read. White space may stand on both sides of a bracket, a
comma or a colon.
-/

namespace RuleLisp

@[elab_as_elim, induction_eliminator]
theorem Json.induction {motive : Json → Prop} (null : motive .null)
    (bool : ∀ value, motive (.bool value)) (number : ∀ numeral, motive (.number numeral))
    (string : ∀ text, motive (.string text))
    (array : ∀ items, (∀ item ∈ items, motive item) → motive (.array items))
    (object : ∀ members, (∀ member ∈ members, motive member.2) → motive (.object members))
    (json : Json) : motive json := by
  refine @Json.rec motive (fun items => ∀ item ∈ items, motive item)
    (fun members => ∀ member ∈ members, motive member.2) (fun member => motive member.2)
    null bool number string array object ?_ ?_ ?_ ?_ ?_ json
  · simp
  · intro head tail first rest
    exact List.forall_mem_cons.mpr ⟨first, rest⟩
  · simp
  · intro head tail first rest
    exact List.forall_mem_cons.mpr ⟨first, rest⟩
  · intro key value holds
    exact holds

namespace Json

def IsSpace (text : List Char) : Prop :=
  ∀ char ∈ text, isSpace char = true

/-! ## Strings -/

def shortEscapes : List (Char × Char) :=
  [('"', '"'), ('\\', '\\'), ('/', '/'), ('b', '\x08'), ('f', '\x0c'), ('n', '\n'), ('r', '\r'),
    ('t', '\t')]

inductive HexCode : List Char → Nat → Prop
  | mk {first second third last : Char} {a b c d : Nat} (firstDigit : hexValue? first = some a)
      (secondDigit : hexValue? second = some b) (thirdDigit : hexValue? third = some c)
      (lastDigit : hexValue? last = some d) :
      HexCode [first, second, third, last] (((a * 16 + b) * 16 + c) * 16 + d)

/-- How a row of characters is written inside a string. A character past the first `0x10000` may be
written as two numbers, each of which carries ten of its bits. -/
inductive Spells : List Char → List Char → Prop
  | nil : Spells [] []
  | plain {char : Char} {chars text : List Char} (visible : 0x20 ≤ char.toNat)
      (unquoted : char ≠ '"') (unescaped : char ≠ '\\') (rest : Spells chars text) :
      Spells (char :: chars) (char :: text)
  | short {char letter : Char} {chars text : List Char} (escape : (letter, char) ∈ shortEscapes)
      (rest : Spells chars text) : Spells (char :: chars) ('\\' :: letter :: text)
  | numbered {char : Char} {digits chars text : List Char} (code : HexCode digits char.toNat)
      (rest : Spells chars text) : Spells (char :: chars) ('\\' :: 'u' :: (digits ++ text))
  | pair {char : Char} {high low : Nat} {digits others chars text : List Char}
      (highBound : high < 0x400) (lowBound : low < 0x400)
      (joined : char.toNat = 0x10000 + high * 0x400 + low) (code : HexCode digits (0xD800 + high))
      (otherCode : HexCode others (0xDC00 + low)) (rest : Spells chars text) :
      Spells (char :: chars) ('\\' :: 'u' :: (digits ++ '\\' :: 'u' :: (others ++ text)))

/-! ## Numerals -/

namespace Numeral

/-- The digits before the point. A zero at the front stands alone. -/
structure IsWhole (row : List Char) : Prop where
  digits : Number.Literal.isDigits row = true
  zero : row.head? = some '0' → row.length = 1

inductive WritesFraction : List Char → List Char → Prop
  | absent : WritesFraction [] []
  | present {row : List Char} (digits : Number.Literal.isDigits row = true) :
      WritesFraction row ('.' :: row)

/-- A power of ten. The sign of a positive one may be left out. -/
inductive WritesPower : Int → List Char → Prop
  | unsigned {row : List Char} (digits : Number.Literal.isDigits row = true) :
      WritesPower (Number.digitsValue row) row
  | plus {row : List Char} (digits : Number.Literal.isDigits row = true) :
      WritesPower (Number.digitsValue row) ('+' :: row)
  | minus {row : List Char} (digits : Number.Literal.isDigits row = true) :
      WritesPower (-Number.digitsValue row) ('-' :: row)

inductive WritesExponent : Int → List Char → Prop
  | absent : WritesExponent 0 []
  | present {letter : Char} {power : Int} {text : List Char} (mark : letter = 'e' ∨ letter = 'E')
      (written : WritesPower power text) : WritesExponent power (letter :: text)

def signText (negative : Bool) : List Char :=
  if negative then ['-'] else []

inductive Writes : Numeral → List Char → Prop
  | mk (negative : Bool) {whole fraction fractionText exponentText : List Char} {exponent : Int}
      (isWhole : IsWhole whole) (hasFraction : WritesFraction fraction fractionText)
      (hasExponent : WritesExponent exponent exponentText) :
      Writes ⟨negative, whole, fraction, exponent⟩
        (signText negative ++ (whole ++ (fractionText ++ exponentText)))

end Numeral

/-! ## Trees -/

inductive Row {α : Type} (entry : α → List Char → Prop) : List α → List Char → Prop
  | last {item : α} {text after : List Char} (written : entry item text) (space : IsSpace after) :
      Row entry [item] (text ++ after)
  | cons {item : α} {items : List α} {text after before rest : List Char}
      (written : entry item text) (space : IsSpace after) (otherSpace : IsSpace before)
      (row : Row entry items rest) :
      Row entry (item :: items) (text ++ (after ++ ',' :: (before ++ rest)))

inductive Inside {α : Type} (entry : α → List Char → Prop) : List α → List Char → Prop
  | empty {text : List Char} (space : IsSpace text) : Inside entry [] text
  | row {items : List α} {before text : List Char} (space : IsSpace before)
      (row : Row entry items text) : Inside entry items (before ++ text)

inductive Member (value : Json → List Char → Prop) : String × Json → List Char → Prop
  | mk {key text after before valueText : List Char} {json : Json} (spelled : Spells key text)
      (space : IsSpace after) (otherSpace : IsSpace before) (written : value json valueText) :
      Member value (String.ofList key, json)
        ('"' :: (text ++ '"' :: (after ++ ':' :: (before ++ valueText))))

inductive Writes : Json → List Char → Prop
  | null : Writes .null ['n', 'u', 'l', 'l']
  | true : Writes (.bool true) ['t', 'r', 'u', 'e']
  | false : Writes (.bool false) ['f', 'a', 'l', 's', 'e']
  | number {numeral : Numeral} {text : List Char} (written : numeral.Writes text) :
      Writes (.number numeral) text
  | string {chars text : List Char} (spelled : Spells chars text) :
      Writes (.string (String.ofList chars)) ('"' :: (text ++ ['"']))
  | array {items : List Json} {text : List Char} (inside : Inside Writes items text) :
      Writes (.array items) ('[' :: (text ++ [']']))
  | object {members : List (String × Json)} {text : List Char}
      (inside : Inside (Member Writes) members text) :
      Writes (.object members) ('\x7b' :: (text ++ ['\x7d']))

inductive WritesText : Json → List Char → Prop
  | mk {json : Json} {before text after : List Char} (space : IsSpace before)
      (written : json.Writes text) (otherSpace : IsSpace after) :
      WritesText json (before ++ (text ++ after))

inductive NestsWithin : Nat → Json → Prop
  | null {levels : Nat} : NestsWithin levels .null
  | bool {levels : Nat} (value : Bool) : NestsWithin levels (.bool value)
  | number {levels : Nat} (numeral : Numeral) : NestsWithin levels (.number numeral)
  | string {levels : Nat} (text : String) : NestsWithin levels (.string text)
  | array {levels : Nat} {items : List Json} (inside : ∀ item ∈ items, NestsWithin levels item) :
      NestsWithin (levels + 1) (.array items)
  | object {levels : Nat} {members : List (String × Json)}
      (inside : ∀ member ∈ members, NestsWithin levels member.2) :
      NestsWithin (levels + 1) (.object members)

end Json

end RuleLisp
