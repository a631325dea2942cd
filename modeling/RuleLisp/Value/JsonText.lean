import RuleLisp.Value.Printer

/-! # Values as JSON

The JSON text of a value, on one line or with one entry to a line. Infinite and undefined numbers
are written as null, and functions as strings.
-/

namespace RuleLisp.Value

/-! ## Strings -/

def hexDigit (digit : Nat) : Char :=
  Char.ofNat (if digit < 10 then '0'.toNat + digit else 'a'.toNat + (digit - 10))

def escapeChar (char : Char) : List Char :=
  if char = '\\' then ['\\', '\\']
  else if char = '"' then ['\\', '"']
  else if char = '\n' then ['\\', 'n']
  else if char = '\r' then ['\\', 'r']
  else if char = '\t' then ['\\', 't']
  else if char.toNat < 0x20 then
    ['\\', 'u', '0', '0', hexDigit (char.toNat / 16), hexDigit (char.toNat % 16)]
  else [char]

def escape (text : String) : String :=
  String.ofList (text.toList.flatMap escapeChar)

example : escape "a\"\n\x1f" = "a\\\"\\n\\u001f" := by decide

def quote (text : String) : String :=
  "\"" ++ escape text ++ "\""

/-! ## Layouts

A layout is the level of indentation of the current entry, or nothing for text on one line. -/

def indentWidth : Nat :=
  2

/-- What stands before an entry or a closing bracket at a level. -/
def lineBreak : Option Nat → String
  | none => ""
  | some level => "\n" ++ String.ofList (List.replicate (level * indentWidth) ' ')

def inner (layout : Option Nat) : Option Nat :=
  layout.map (· + 1)

def colon : Option Nat → String
  | none => ":"
  | some _ => ": "

/-- A bracketed row of entries, of which each starts with its own line break. -/
def bracketed (layout : Option Nat) (opener closer : String) (entries : List String) : String :=
  if entries.isEmpty then opener ++ closer
  else opener ++ ",".intercalate entries ++ lineBreak layout ++ closer

mutual

def jsonAt (layout : Option Nat) : Value → String
  | .null => "null"
  | .bool true => "true"
  | .bool false => "false"
  | .number value => Number.jsonText value
  | .string text => quote text
  | .list items => bracketed layout "[" "]" (jsonItems (inner layout) items)
  | .object fields => bracketed layout "\x7b" "\x7d" (jsonFields (inner layout) fields)
  | .function callee => quote (functionText callee)

def jsonItems (layout : Option Nat) : List Value → List String
  | [] => []
  | item :: rest => (lineBreak layout ++ item.jsonAt layout) :: jsonItems layout rest

def jsonFields (layout : Option Nat) : List (String × Value) → List String
  | [] => []
  | (key, value) :: rest =>
      (lineBreak layout ++ quote key ++ colon layout ++ value.jsonAt layout) ::
        jsonFields layout rest

end

def compactJson (value : Value) : String :=
  value.jsonAt none

def prettyJson (value : Value) : String :=
  value.jsonAt (some 0)

/-- How an interactive session shows a result: lists and objects as JSON with one entry to a line,
other values as they are printed. -/
def shown (value : Value) : String :=
  match value with
  | list _ | object _ => value.prettyJson
  | _ => value.render

end RuleLisp.Value
