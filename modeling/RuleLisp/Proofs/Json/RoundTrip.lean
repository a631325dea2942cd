import Mathlib.Data.List.Forall2
import RuleLisp.Json.Value
import RuleLisp.Proofs.Json.Number
import RuleLisp.Proofs.Value

/-! # Values read back from JSON

The JSON text of a value, in either layout, is allowed by the grammar, and what it reads back as is
the value itself up to what JSON cannot say: functions come back as their texts, and infinite and
undefined numbers as null.
-/

namespace RuleLisp

namespace Value

inductive NestsWithin : Nat → Value → Prop
  | null {levels : Nat} : NestsWithin levels .null
  | bool {levels : Nat} (value : Bool) : NestsWithin levels (.bool value)
  | number {levels : Nat} (value : Float) : NestsWithin levels (.number value)
  | string {levels : Nat} (text : String) : NestsWithin levels (.string text)
  | list {levels : Nat} {items : List Value} (inside : ∀ item ∈ items, NestsWithin levels item) :
      NestsWithin (levels + 1) (.list items)
  | object {levels : Nat} {fields : List (String × Value)}
      (inside : ∀ field ∈ fields, NestsWithin levels field.2) :
      NestsWithin (levels + 1) (.object fields)
  | function {levels : Nat} (callee : Function) : NestsWithin levels (.function callee)

mutual

/-- What JSON can say of a value. -/
def normalized : Value → Value
  | .null => .null
  | .bool value => .bool value
  | .number value => if Number.isFinite value then .number value else .null
  | .string text => .string text
  | .list items => .list (normalizedItems items)
  | .object fields => .object (normalizedFields fields)
  | .function callee => .string (functionText callee)

def normalizedItems : List Value → List Value
  | [] => []
  | item :: rest => item.normalized :: normalizedItems rest

def normalizedFields : List (String × Value) → List (String × Value)
  | [] => []
  | (key, value) :: rest => (key, value.normalized) :: normalizedFields rest

end

theorem keys_normalizedFields (fields : List (String × Value)) :
    Table.keys (normalizedFields fields) = Table.keys fields := by
  induction fields with
  | nil => rw [normalizedFields]
  | cons field rest induction =>
      rw [normalizedFields]
      exact congrArg (field.1 :: ·) induction

/-! ## Strings -/

theorem hexValue?_hexDigit : ∀ digit < 16, Json.hexValue? (hexDigit digit) = some digit := by
  decide

theorem hexCode_of_lt {code : Nat} (bound : code < 0x20) :
    Json.HexCode ['0', '0', hexDigit (code / 16), hexDigit (code % 16)] code := by
  have digits : Json.HexCode ['0', '0', hexDigit (code / 16), hexDigit (code % 16)]
      (((0 * 16 + 0) * 16 + code / 16) * 16 + code % 16) :=
    .mk rfl rfl (hexValue?_hexDigit _ (by omega)) (hexValue?_hexDigit _ (by omega))
  rwa [show ((0 * 16 + 0) * 16 + code / 16) * 16 + code % 16 = code by omega] at digits

theorem spells_escapeChar (char : Char) {chars text : List Char} (rest : Json.Spells chars text) :
    Json.Spells (char :: chars) (escapeChar char ++ text) := by
  unfold escapeChar
  -- The five characters that have a letter of their own.
  iterate 5
    split
    · next same =>
        rw [same]
        exact .short (by decide) rest
  split
  · next bound => exact .numbered (hexCode_of_lt bound) rest
  · next notBackslash notQuote _ _ _ visible =>
      exact .plain (Nat.not_lt.mp visible) notQuote notBackslash rest

theorem spells_flatMap_escapeChar (chars : List Char) :
    Json.Spells chars (chars.flatMap escapeChar) := by
  induction chars with
  | nil => exact .nil
  | cons char rest induction => exact spells_escapeChar char induction

theorem toList_quote (text : String) :
    (quote text).toList = '"' :: (text.toList.flatMap escapeChar ++ ['"']) := by
  simp [quote, escape]

theorem writes_quote (text : String) : Json.Writes (.string text) (quote text).toList := by
  have written := Json.Writes.string (spells_flatMap_escapeChar text.toList)
  rwa [String.ofList_toList, ← toList_quote] at written

/-! ## Rows -/

theorem isSpace_lineBreak (layout : Option Nat) : Json.IsSpace (lineBreak layout).toList := by
  cases layout with
  | none => exact nofun
  | some level =>
      intro char member
      simp only [lineBreak, String.toList_append, String.toList_ofList, List.mem_append,
        List.mem_replicate] at member
      rcases member with newline | ⟨_, rfl⟩
      · cases List.mem_singleton.mp newline
        rfl
      · rfl

theorem exists_colon_eq (layout : Option Nat) :
    ∃ after, (colon layout).toList = ':' :: after ∧ Json.IsSpace after := by
  cases layout with
  | none => exact ⟨[], rfl, nofun⟩
  | some level =>
      refine ⟨[' '], by simp [colon], ?_⟩
      intro char member
      cases List.mem_singleton.mp member
      rfl

/-- Entries that are each allowed by the grammar make a row. -/
theorem exists_row {α β : Type} {entry : β → List Char → Prop} {good : α → β → Prop}
    {before after : List Char} (space : Json.IsSpace before) (otherSpace : Json.IsSpace after)
    (text : α → List Char) (first : α) (rest : List α)
    (each : ∀ item ∈ first :: rest, ∃ other, entry other (text item) ∧ good item other) :
    ∃ others row, Json.Row entry others row ∧ List.Forall₂ good (first :: rest) others ∧
      List.intercalate [','] ((first :: rest).map fun item => before ++ text item) ++ after =
        before ++ row := by
  induction rest generalizing first with
  | nil =>
      rcases each first List.mem_cons_self with ⟨other, written, holds⟩
      refine ⟨[other], text first ++ after, .last written otherSpace, .cons holds .nil, ?_⟩
      simp
  | cons second rest induction =>
      rw [List.forall_mem_cons] at each
      rcases each with ⟨⟨other, written, holds⟩, each⟩
      rcases induction second each with ⟨others, row, isRow, rowHolds, same⟩
      refine ⟨other :: others, text first ++ ([] ++ ',' :: (before ++ row)),
        .cons written nofun space isRow, .cons holds rowHolds, ?_⟩
      rw [List.map_cons] at same
      rw [List.map_cons, List.map_cons, List.intercalate_cons_cons, List.append_assoc, same]
      simp

theorem exists_inside {α β : Type} {entry : β → List Char → Prop} {good : α → β → Prop}
    (layout : Option Nat) (opener closer : String) (text : α → String) (items : List α)
    (each : ∀ item ∈ items, ∃ other, entry other (text item).toList ∧ good item other) :
    ∃ others inside, Json.Inside entry others inside ∧ List.Forall₂ good items others ∧
      (bracketed layout opener closer
        (items.map fun item => lineBreak (inner layout) ++ text item)).toList =
          opener.toList ++ (inside ++ closer.toList) := by
  cases items with
  | nil => exact ⟨[], [], .empty nofun, .nil, by simp [bracketed]⟩
  | cons first rest =>
      rcases exists_row (isSpace_lineBreak (inner layout)) (isSpace_lineBreak layout)
        (fun item => (text item).toList) first rest each with ⟨others, row, isRow, holds, same⟩
      refine ⟨others, _, .row (isSpace_lineBreak (inner layout)) isRow, holds, ?_⟩
      rw [← same, bracketed, if_neg (by simp)]
      simp only [String.toList_append, String.toList_intercalate, List.map_map, Function.comp_def,
        List.append_assoc]
      rfl

/-! ## Values -/

structure Denotes (number? : Json.Numeral → Option Float) (levels : Nat) (value : Value)
    (json : Json) : Prop where
  nests : json.NestsWithin levels
  reads : json.valueWith? number? = some value.normalized

namespace Denotes

variable {number? : Json.Numeral → Option Float} {levels : Nat}

theorem list {items : List Value} {jsons : List Json}
    (denote : List.Forall₂ (Denotes number? levels) items jsons) :
    Denotes number? (levels + 1) (.list items) (.array jsons) := by
  have nests : ∀ json ∈ jsons, json.NestsWithin levels := by
    induction denote with
    | nil => exact nofun
    | cons first _ induction => exact List.forall_mem_cons.mpr ⟨first.nests, induction⟩
  have reads : Json.valuesWith? number? jsons = some (normalizedItems items) := by
    induction denote with
    | nil => rw [Json.valuesWith?, normalizedItems]
    | cons first _ induction =>
        rw [List.forall_mem_cons] at nests
        simp only [Json.valuesWith?, first.reads, induction nests.2, normalizedItems,
          Option.bind_eq_bind, Option.bind_some]
  refine ⟨.array nests, ?_⟩
  rw [Json.valueWith?, reads, normalized]
  rfl

theorem object {fields : List (String × Value)} {members : List (String × Json)}
    (distinct : (Table.keys fields).Nodup)
    (denote : Table.Rel (Denotes number? levels) fields members) :
    Denotes number? (levels + 1) (.object fields) (.object members) := by
  have nests : ∀ member ∈ members, member.2.NestsWithin levels := by
    clear distinct
    induction denote with
    | nil => exact nofun
    | cons first _ induction =>
        rcases first with ⟨key, first⟩
        exact List.forall_mem_cons.mpr ⟨first.nests, induction⟩
  have reads : Json.fieldsWith? number? members = some (normalizedFields fields) := by
    clear distinct nests
    induction denote with
    | nil => rw [Json.fieldsWith?, normalizedFields]
    | cons first _ induction =>
        rcases first with ⟨key, first⟩
        simp only [Json.fieldsWith?, first.reads, induction, normalizedFields,
          Option.bind_eq_bind, Option.bind_some]
  refine ⟨.object nests, ?_⟩
  rw [← keys_normalizedFields] at distinct
  rw [Json.valueWith?, reads, normalized, Option.map_some, Table.ofList_of_nodup distinct]

end Denotes

theorem member_of_writes {json : Json} {value : Value} {layout : Option Nat}
    (written : json.Writes (value.jsonAt layout).toList) (key : String) :
    Json.Member Json.Writes (key, json)
      (quote key ++ colon layout ++ value.jsonAt layout).toList := by
  rcases exists_colon_eq layout with ⟨between, colon, space⟩
  have member := Json.Member.mk (spells_flatMap_escapeChar key.toList)
    (show Json.IsSpace [] from nofun) space written
  rw [String.ofList_toList] at member
  simpa [toList_quote, colon] using member

/-- The text of a value in any layout is allowed by the grammar, and stands for that value. -/
theorem exists_writes_jsonAt {number? : Json.Numeral → Option Float}
    (exact : ∀ number, Number.isFinite number = true → ∀ numeral : Json.Numeral,
      numeral.Writes (Number.jsonText number).toList → number? numeral = some number)
    {value : Value} {levels : Nat} (nests : value.NestsWithin levels)
    (distinct : value.HasDistinctKeys) (layout : Option Nat) :
    ∃ json, json.Writes (value.jsonAt layout).toList ∧ Denotes number? levels value json := by
  induction value generalizing levels layout with
  | null =>
      refine ⟨.null, ?_, .null, rfl⟩
      rw [jsonAt]
      exact .null
  | bool value =>
      refine ⟨.bool value, ?_, .bool value, rfl⟩
      cases value with
      | true =>
          rw [jsonAt]
          exact .true
      | false =>
          rw [jsonAt]
          exact .false
  | number value =>
      by_cases finite : Number.isFinite value = true
      · rcases Json.Numeral.exists_writes_jsonText finite with ⟨numeral, written, _⟩
        refine ⟨.number numeral, .number written, .number numeral, ?_⟩
        simp [Json.valueWith?, normalized, finite, exact value finite numeral written]
      · have text : Number.jsonText value = "null" := by simp [Number.jsonText, finite]
        refine ⟨.null, ?_, .null, ?_⟩
        · rw [jsonAt, text]
          exact .null
        · simp [Json.valueWith?, normalized, finite]
  | string text => exact ⟨.string text, writes_quote text, .string text, rfl⟩
  | function callee =>
      exact ⟨.string (functionText callee), writes_quote _, .string _, rfl⟩
  | list items induction =>
      rcases nests with _ | _ | _ | _ | @⟨levels, _, nests⟩
      rcases distinct with _ | _ | _ | _ | ⟨distinct⟩
      rcases exists_inside layout "[" "]" (fun item : Value => item.jsonAt (inner layout)) items
        fun item member => induction item member (nests item member) (distinct item member) _ with
        ⟨jsons, inside, written, denote, text⟩
      refine ⟨.array jsons, ?_, .list denote⟩
      rw [jsonAt, jsonItems_eq_map, text]
      exact .array written
  | object fields induction =>
      rcases nests with _ | _ | _ | _ | _ | @⟨levels, _, nests⟩
      rcases distinct with _ | _ | _ | _ | _ | ⟨distinct, all⟩
      have each : ∀ field ∈ fields, ∃ member, Json.Member Json.Writes member
          (quote field.1 ++ colon (inner layout) ++ field.2.jsonAt (inner layout)).toList ∧
          Table.EntryRel (Denotes number? levels) field member := by
        intro field member
        rcases induction field member (nests field member) (all field member) (inner layout) with
          ⟨json, written, denotes⟩
        exact ⟨(field.1, json), member_of_writes written field.1, .mk field.1 denotes⟩
      rcases exists_inside layout "\x7b" "\x7d" _ fields each with
        ⟨members, inside, written, denote, text⟩
      refine ⟨.object members, ?_, .object distinct denote⟩
      rw [jsonAt, jsonFields_eq_map]
      simp only [String.append_assoc] at text ⊢
      rw [text]
      exact .object written

/-- The text of a value, in either layout, is JSON and reads back as what JSON can say of the
value, if the numbers in it read back. -/
theorem json_reads_back {number? : Json.Numeral → Option Float}
    (exact : ∀ number, Number.isFinite number = true → ∀ numeral : Json.Numeral,
      numeral.Writes (Number.jsonText number).toList → number? numeral = some number)
    {value : Value} (nests : value.NestsWithin 127) (distinct : value.HasDistinctKeys) :
    ∀ text ∈ [value.compactJson, value.prettyJson], ∃ json : Json,
      json.WritesText text.toList ∧ Json.parse? text = some json ∧
        json.valueWith? number? = some value.normalized := by
  have each : ∀ layout, ∃ json : Json, json.WritesText (value.jsonAt layout).toList ∧
      Json.parse? (value.jsonAt layout) = some json ∧
        json.valueWith? number? = some value.normalized := by
    intro layout
    rcases exists_writes_jsonAt exact nests distinct layout with ⟨json, written, denotes⟩
    have text : json.WritesText ([] ++ ((value.jsonAt layout).toList ++ [])) :=
      .mk nofun written nofun
    rw [List.nil_append, List.append_nil] at text
    exact ⟨json, text, Json.parse?_of_writesText text denotes.nests, denotes.reads⟩
  simp only [List.forall_mem_cons]
  exact ⟨each none, each (some 0), nofun⟩

/-- A value with all that JSON has to escape or cannot say. -/
theorem json_reads_back_mixed :
    let zero := Number.ofMagnitude true 0
    let items : Value := .list [.number zero, .number Number.undefined, .object []]
    let value : Value := .object [("a\n\x01", items), ("\"é", .function (.host 0 "f"))]
    value.NestsWithin 127 ∧ value.HasDistinctKeys ∧
      value.compactJson =
        "\x7b\"a\\n\\u0001\":[-0,null,\x7b\x7d],\"\\\"é\":\"<function f>\"\x7d" ∧
      ∃ json, Json.parse? value.compactJson = some json ∧
        json.valueWith? Json.Numeral.nearest? = some (.object
          [("a\n\x01", .list [.number zero, .null, .object []]),
            ("\"é", .string "<function f>")]) := by
  intro zero items value
  have nests : value.NestsWithin 127 := by
    apply NestsWithin.object
    simp only [List.forall_mem_cons]
    refine ⟨.list ?_, .function _, nofun⟩
    simp only [List.forall_mem_cons]
    exact ⟨.number _, .number _, .object nofun, nofun⟩
  have distinct : value.HasDistinctKeys := by
    apply HasDistinctKeys.object (by decide)
    simp only [List.forall_mem_cons]
    refine ⟨.list ?_, .function _, nofun⟩
    simp only [List.forall_mem_cons]
    exact ⟨.number _, .number _, .object .nil nofun, nofun⟩
  have finite : Number.isFinite zero = true := by decide +kernel
  have infinite : Number.isFinite Number.undefined = false := by decide +kernel
  have exact (number : Float) (finite : Number.isFinite number = true) (numeral : Json.Numeral)
      (written : numeral.Writes (Number.jsonText number).toList) :
      numeral.nearest? = some number :=
    Json.Numeral.nearest?_of_writes finite written
  rcases json_reads_back exact nests distinct value.compactJson List.mem_cons_self with
    ⟨json, _, parsed, read⟩
  refine ⟨nests, distinct, by decide +kernel, json, parsed, ?_⟩
  rw [read]
  simp [value, items, normalized, normalizedItems, normalizedFields, finite, infinite,
    functionText, Function.name]

end Value

end RuleLisp
