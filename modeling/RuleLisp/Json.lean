import RuleLisp.Number.Literal

/-! # JSON texts

Inputs come as JSON. A text is first read as a tree, in which a number is still the numeral that
was written and an object still has all its members, the repeated ones included.
-/

namespace RuleLisp

namespace Json

/-- A number as it is written: digits before and after the point, and a power of ten. -/
structure Numeral where
  negative : Bool
  whole : List Char
  fraction : List Char
  exponent : Int
deriving DecidableEq, Repr

end Json

inductive Json where
  | null
  | bool (value : Bool)
  | number (numeral : Json.Numeral)
  | string (text : String)
  | array (items : List Json)
  | object (members : List (String × Json))

namespace Json

def kindName : Json → String
  | null => "null"
  | bool _ => "boolean"
  | number _ => "number"
  | string _ => "string"
  | array _ => "array"
  | object _ => "object"

/-! ## Spaces and strings -/

def isSpace (char : Char) : Bool :=
  char = ' ' || char = '\t' || char = '\n' || char = '\r'

def skipSpace (text : List Char) : List Char :=
  text.dropWhile isSpace

def hexValue? (char : Char) : Option Nat :=
  if '0' ≤ char ∧ char ≤ '9' then some (char.toNat - '0'.toNat)
  else if 'a' ≤ char ∧ char ≤ 'f' then some (char.toNat - 'a'.toNat + 10)
  else if 'A' ≤ char ∧ char ≤ 'F' then some (char.toNat - 'A'.toNat + 10)
  else none

inductive StringState where
  | plain
  | escaped
  /-- Inside a character number, with the first half of a pair, if there is one, the digits that
  are still to come after this one, and the number so far. -/
  | numbered (first : Option Nat) (digits : Nat) (value : Nat)
  /-- After the first half of a pair. -/
  | half (first : Nat)
  /-- After the first half of a pair and a backslash. -/
  | halfEscaped (first : Nat)

def escapeValue? (char : Char) : Option Char :=
  if char = '"' ∨ char = '\\' ∨ char = '/' then some char
  else if char = 'b' then some '\x08'
  else if char = 'f' then some '\x0c'
  else if char = 'n' then some '\n'
  else if char = 'r' then some '\r'
  else if char = 't' then some '\t'
  else none

/-- What one character of a string leads to: the characters so far, the newest first, and the place
of the next one. A quotation mark in the plain state is the end and is not handled here. -/
def stringStep (state : StringState) (before : List Char) (char : Char) :
    Option (List Char × StringState) :=
  match state with
  | .plain =>
      if char = '\\' then some (before, .escaped)
      else if char.toNat < 0x20 then none
      else some (char :: before, .plain)
  | .escaped =>
      if char = 'u' then some (before, .numbered none 3 0)
      else (escapeValue? char).map fun value => (value :: before, .plain)
  | .numbered first digits value =>
      match hexValue? char with
      | none => none
      | some digit =>
          let value := value * 16 + digit
          if digits ≠ 0 then some (before, .numbered first (digits - 1) value)
          else
            match first with
            | some first =>
                if 0xDC00 ≤ value ∧ value ≤ 0xDFFF then
                  let joined := 0x10000 + (first - 0xD800) * 0x400 + (value - 0xDC00)
                  some (Char.ofNat joined :: before, .plain)
                else none
            | none =>
                if 0xD800 ≤ value ∧ value ≤ 0xDBFF then some (before, .half value)
                else if 0xDC00 ≤ value ∧ value ≤ 0xDFFF then none
                else some (Char.ofNat value :: before, .plain)
  | .half first => if char = '\\' then some (before, .halfEscaped first) else none
  | .halfEscaped first => if char = 'u' then some (before, .numbered (some first) 3 0) else none

def readString? (state : StringState) (before : List Char) :
    List Char → Option (String × List Char)
  | [] => none
  | char :: rest =>
      match state, char with
      | .plain, '"' => some (String.ofList before.reverse, rest)
      | _, _ =>
          match stringStep state before char with
          | none => none
          | some (before, state) => readString? state before rest

/-! ## Numerals -/

def spanDigits (text : List Char) : List Char × List Char :=
  (text.takeWhile Number.isDigit, text.dropWhile Number.isDigit)

def readFraction? : List Char → Option (List Char × List Char)
  | '.' :: text =>
      let (digits, rest) := spanDigits text
      if digits.isEmpty then none else some (digits, rest)
  | text => some ([], text)

def readPower? (negative : Bool) (text : List Char) : Option (Int × List Char) :=
  let (digits, rest) := spanDigits text
  let power : Int := Number.digitsValue digits
  if digits.isEmpty then none else some (if negative then -power else power, rest)

def readExponent? (text : List Char) : Option (Int × List Char) :=
  match text with
  | [] => some (0, [])
  | char :: rest =>
      if char = 'e' ∨ char = 'E' then
        match rest with
        | '+' :: rest => readPower? false rest
        | '-' :: rest => readPower? true rest
        | rest => readPower? false rest
      else some (0, text)

/-- Reads a numeral after its sign. A zero at the front stands alone. -/
def readUnsigned? (negative : Bool) (text : List Char) : Option (Numeral × List Char) := do
  let (whole, rest) := spanDigits text
  if whole.isEmpty ∨ (whole.head? = some '0' ∧ whole.length ≠ 1) then none
  else
    let (fraction, rest) ← readFraction? rest
    let (exponent, rest) ← readExponent? rest
    some (⟨negative, whole, fraction, exponent⟩, rest)

def readNumeral? : List Char → Option (Numeral × List Char)
  | '-' :: text => readUnsigned? true text
  | text => readUnsigned? false text

/-! ## Trees -/

/-- Reads one or more items with commas between them, and the closing bracket. An item takes at
least one character, so the length of the text is enough `fuel`. -/
def readItems? {α : Type} (item : List Char → Option (α × List Char)) (closer : Char) :
    (fuel : Nat) → List Char → Option (List α × List Char)
  | 0, _ => none
  | fuel + 1, text => do
      let (first, rest) ← item text
      match skipSpace rest with
      | [] => none
      | char :: rest =>
          if char = closer then some ([first], rest)
          else if char = ',' then
            let (others, rest) ← readItems? item closer fuel rest
            some (first :: others, rest)
          else none

def readBracket? {α : Type} (item : List Char → Option (α × List Char)) (closer : Char)
    (text : List Char) : Option (List α × List Char) :=
  match skipSpace text with
  | [] => none
  | char :: rest =>
      if char = closer then some ([], rest) else readItems? item closer text.length (char :: rest)

def readMember? (value : List Char → Option (Json × List Char)) (text : List Char) :
    Option ((String × Json) × List Char) :=
  match skipSpace text with
  | '"' :: rest => do
      let (key, rest) ← readString? .plain [] rest
      match skipSpace rest with
      | ':' :: rest => do
          let (value, rest) ← value rest
          some ((key, value), rest)
      | _ => none
  | _ => none

def readConstant? (text : List Char) : Option (Json × List Char) :=
  match text with
  | 'n' :: 'u' :: 'l' :: 'l' :: rest => some (.null, rest)
  | 't' :: 'r' :: 'u' :: 'e' :: rest => some (.bool true, rest)
  | 'f' :: 'a' :: 'l' :: 's' :: 'e' :: rest => some (.bool false, rest)
  | _ => none

/-- Reads a tree whose brackets nest no deeper than the given number of levels, with the reader for
the trees inside its brackets at hand, unless no brackets are left to open. -/
def readTree? (inside : Option (List Char → Option (Json × List Char))) (text : List Char) :
    Option (Json × List Char) :=
  match skipSpace text with
  | [] => none
  | char :: rest =>
      if char = '"' then (readString? .plain [] rest).map fun (text, rest) => (.string text, rest)
      else if char = '[' then do
        let (items, rest) ← readBracket? (← inside) ']' rest
        some (.array items, rest)
      else if char = '\x7b' then do
        let (members, rest) ← readBracket? (readMember? (← inside)) '\x7d' rest
        some (.object members, rest)
      else if char = '-' ∨ Number.isDigit char then
        (readNumeral? (char :: rest)).map fun (numeral, rest) => (.number numeral, rest)
      else readConstant? (char :: rest)

def readLevels? : (levels : Nat) → List Char → Option (Json × List Char)
  | 0 => readTree? none
  | levels + 1 => readTree? (some (readLevels? levels))

def maxLevels : Nat :=
  127

def parse? (text : String) : Option Json :=
  match readLevels? maxLevels text.toList with
  | some (json, rest) => if (skipSpace rest).isEmpty then some json else none
  | none => none

end Json

end RuleLisp
