import RuleLisp.Proofs.Json.RoundTrip

/-! # JSON on many lines

The text with one entry to a line differs from the text on one line only in white space outside
strings, and each of its lines is indented by the lists and objects that are open there.
-/

namespace RuleLisp

namespace Json

/-! ## Reading along a text -/

inductive Quoting
  | outside
  | inside
  /-- Inside a string and behind a backslash. -/
  | escaped
  deriving DecidableEq

/-- What a reader knows between two characters of a text. -/
structure Cursor where
  quoting : Quoting
  depth : Nat

def isOpening (char : Char) : Bool :=
  char = '[' || char = '\x7b'

def isClosing (char : Char) : Bool :=
  char = ']' || char = '\x7d'

def isFiller (char : Char) : Bool :=
  char = ' ' || char = '\n'

namespace Cursor

def start : Cursor :=
  ⟨.outside, 0⟩

def step (cursor : Cursor) (char : Char) : Cursor :=
  match cursor.quoting with
  | .outside =>
      if char = '"' then { cursor with quoting := .inside }
      else if isOpening char then { cursor with depth := cursor.depth + 1 }
      else if isClosing char then { cursor with depth := cursor.depth - 1 }
      else cursor
  | .inside =>
      if char = '"' then { cursor with quoting := .outside }
      else if char = '\\' then { cursor with quoting := .escaped }
      else cursor
  | .escaped => { cursor with quoting := .inside }

def after (cursor : Cursor) (text : List Char) : Cursor :=
  text.foldl step cursor

/-- How many lists and objects are around a character. A closing bracket is outside of what it
closes. -/
def around (cursor : Cursor) (char : Char) : Nat :=
  if isClosing char then cursor.depth - 1 else cursor.depth

def strip (cursor : Cursor) : List Char → List Char
  | [] => []
  | char :: text =>
      if cursor.quoting = .outside ∧ isFiller char then (cursor.step char).strip text
      else char :: (cursor.step char).strip text

/-- A newline starts a line with two spaces for each list and object around the first character
that is not a space, on top of those of the text as a whole. -/
def IsIndented (level : Nat) (cursor : Cursor) (text : List Char) : Prop :=
  ∀ front rest, text = front ++ '\n' :: rest →
    (cursor.after front).quoting = .outside ∧
      ∃ char tail, isFiller char = false ∧ rest =
        List.replicate (2 * (level + (cursor.after front).around char)) ' ' ++ char :: tail

theorem after_append (cursor : Cursor) (text rest : List Char) :
    cursor.after (text ++ rest) = (cursor.after text).after rest :=
  List.foldl_append

theorem strip_append (cursor : Cursor) (text rest : List Char) :
    cursor.strip (text ++ rest) = cursor.strip text ++ (cursor.after text).strip rest := by
  induction text generalizing cursor with
  | nil => rfl
  | cons char text induction =>
      simp only [List.cons_append, strip, induction]
      split <;> rfl

theorem isIndented_of_notMem {level : Nat} {cursor : Cursor} {text : List Char}
    (oneLine : '\n' ∉ text) : cursor.IsIndented level text := by
  rintro front rest rfl
  exact absurd (List.mem_append_right _ List.mem_cons_self) oneLine

theorem IsIndented.append {level : Nat} {cursor : Cursor} {text rest : List Char}
    (first : cursor.IsIndented level text) (second : (cursor.after text).IsIndented level rest) :
    cursor.IsIndented level (text ++ rest) := by
  intro front back same
  -- The newline is in the second text, or in the first one with its whole line break.
  rcases List.append_eq_append_iff.mp same with ⟨middle, rfl, inRest⟩ | ⟨middle, inText, same⟩
  · rw [after_append]
    exact second middle back inRest
  · cases middle with
    | nil =>
        rw [inText, List.append_nil] at second
        exact second [] back same.symm
    | cons char middle =>
        rcases List.cons.inj same with ⟨rfl, rfl⟩
        rcases first front middle inText with ⟨outside, char, tail, solid, indented⟩
        exact ⟨outside, char, tail ++ rest, solid, by simp [indented]⟩

end Cursor

/-! ## Pairs of texts -/

theorem toList_bracketed {layout : Option Nat} {opener closer : String} {entries : List String}
    (nonempty : entries ≠ []) :
    (Value.bracketed layout opener closer entries).toList =
      opener.toList ++ ([','].intercalate (entries.map String.toList) ++
        ((Value.lineBreak layout).toList ++ closer.toList)) := by
  rw [Value.bracketed, if_neg (by simp [nonempty])]
  simp [String.toList_intercalate]

theorem toList_lineBreak (level : Nat) :
    (Value.lineBreak (some level)).toList = '\n' :: List.replicate (2 * level) ' ' := by
  simp [Value.lineBreak, Value.indentWidth, Nat.mul_comm]

/-- A text on many lines and the same text on one line, both between the same two cursors. -/
structure Lays (level : Nat) (first last : Cursor) (lines line : List Char) : Prop where
  after : first.after lines = last
  strip : first.strip lines = line
  indented : first.IsIndented level lines

namespace Lays

variable {level depth : Nat} {first second third : Cursor} {lines line others other : List Char}

theorem nil : Lays level first first [] [] :=
  ⟨rfl, rfl, Cursor.isIndented_of_notMem List.not_mem_nil⟩

theorem append (early : Lays level first second lines line)
    (late : Lays level second third others other) :
    Lays level first third (lines ++ others) (line ++ other) where
  after := by rw [Cursor.after_append, early.after, late.after]
  strip := by rw [Cursor.strip_append, early.strip, early.after, late.strip]
  indented := early.indented.append (early.after ▸ late.indented)

theorem cons {char : Char} (kept : first.quoting = .outside → isFiller char = false)
    (sameLine : char ≠ '\n') (rest : Lays level (first.step char) second lines line) :
    Lays level first second (char :: lines) (char :: line) := by
  have single : Lays level first (first.step char) [char] [char] := by
    refine ⟨rfl, ?_, Cursor.isIndented_of_notMem ?_⟩
    · have isKept : ¬(first.quoting = .outside ∧ isFiller char = true) := by
        rintro ⟨outside, filler⟩
        exact absurd filler (by simp [kept outside])
      rw [Cursor.strip, if_neg isKept, Cursor.strip]
    · exact fun newline => sameLine (List.mem_singleton.mp newline).symm
  exact single.append rest

/-- Spaces that the text on one line does not have. -/
theorem spaces (count : Nat) :
    Lays level ⟨.outside, depth⟩ ⟨.outside, depth⟩ (List.replicate count ' ') [] := by
  induction count with
  | zero => exact nil
  | succ count induction =>
      have space : Lays level ⟨.outside, depth⟩ ⟨.outside, depth⟩ [' '] [] :=
        ⟨rfl, rfl, Cursor.isIndented_of_notMem (by decide)⟩
      exact space.append induction

/-- A line of its own for a text. -/
theorem newline {char : Char} (solid : isFiller char = false)
    (rest : Lays level ⟨.outside, depth⟩ second (char :: lines) line) :
    Lays level ⟨.outside, depth⟩ second
      ((Value.lineBreak (some (level + Cursor.around ⟨.outside, depth⟩ char))).toList ++
        char :: lines) line := by
  rw [toList_lineBreak]
  have spaced := (spaces (2 * (level + Cursor.around ⟨.outside, depth⟩ char))).append rest
  refine ⟨spaced.after, spaced.strip, ?_⟩
  intro front back same
  -- The first newline is the line break itself, and all others are in the text behind it.
  cases front with
  | nil =>
      rcases List.cons.inj same with ⟨_, rfl⟩
      exact ⟨rfl, char, lines, solid, rfl⟩
  | cons first front =>
      rcases List.cons.inj same with ⟨rfl, inside⟩
      exact spaced.indented front back inside

end Lays

/-! ## Strings and numerals -/

structure Cursor.Passes (cursor : Cursor) (char : Char) : Prop where
  step_eq : cursor.step char = cursor
  kept : cursor.quoting = .outside → isFiller char = false
  sameLine : char ≠ '\n'

theorem Lays.of_passes {level : Nat} {cursor : Cursor} {text : List Char}
    (passes : ∀ char ∈ text, cursor.Passes char) : Lays level cursor cursor text text := by
  induction text with
  | nil => exact .nil
  | cons char text induction =>
      rw [List.forall_mem_cons] at passes
      apply Lays.cons passes.1.kept passes.1.sameLine
      rw [passes.1.step_eq]
      exact induction passes.2

theorem Cursor.passes_inside {depth : Nat} {char : Char} (unquoted : char ≠ '"')
    (unescaped : char ≠ '\\') (sameLine : char ≠ '\n') : Passes ⟨.inside, depth⟩ char where
  step_eq := by simp [step, unquoted, unescaped]
  kept := nofun
  sameLine := sameLine

theorem HexCode.passes {digits : List Char} {code depth : Nat} (spelled : HexCode digits code) :
    ∀ char ∈ digits, Cursor.Passes ⟨.inside, depth⟩ char := by
  have digit : ∀ {char value}, hexValue? char = some value →
      Cursor.Passes ⟨.inside, depth⟩ char := by
    intro char value read
    apply Cursor.passes_inside <;> rintro rfl <;> cases read
  rcases spelled with ⟨first, second, third, last⟩
  simp only [List.forall_mem_cons]
  exact ⟨digit first, digit second, digit third, digit last, List.forall_mem_nil _⟩

theorem Lays.escape {level depth : Nat} {letter : Char} {text : List Char}
    (sameLine : letter ≠ '\n')
    (rest : Lays level ⟨.inside, depth⟩ ⟨.inside, depth⟩ text text) :
    Lays level ⟨.inside, depth⟩ ⟨.inside, depth⟩ ('\\' :: letter :: text)
      ('\\' :: letter :: text) := by
  exact .cons nofun (by decide) (.cons nofun sameLine rest)

theorem Spells.lays {level depth : Nat} {chars text : List Char} (spelled : Spells chars text) :
    Lays level ⟨.inside, depth⟩ ⟨.inside, depth⟩ text text := by
  induction spelled with
  | nil => exact .nil
  | @plain char _ _ visible unquoted unescaped _ induction =>
      have sameLine : char ≠ '\n' := by
        rintro rfl
        exact absurd visible (by decide)
      have passes : Cursor.Passes ⟨.inside, depth⟩ char :=
        Cursor.passes_inside unquoted unescaped sameLine
      apply Lays.cons passes.kept sameLine
      rwa [passes.step_eq]
  | @short _ letter _ _ escape _ induction =>
      refine .escape ?_ induction
      rintro rfl
      simp [shortEscapes] at escape
  | numbered code _ induction =>
      exact .escape (by decide) ((Lays.of_passes code.passes).append induction)
  | pair _ _ _ code otherCode _ induction =>
      have second := (Lays.of_passes otherCode.passes).append induction
      exact .escape (by decide) ((Lays.of_passes code.passes).append (.escape (by decide) second))

def specials : List Char :=
  ['"', '[', ']', '\x7b', '\x7d', ' ', '\n']

theorem Cursor.passes_outside {depth : Nat} {char : Char} (plain : char ∉ specials) :
    Passes ⟨.outside, depth⟩ char := by
  simp only [specials, List.mem_cons, List.not_mem_nil, or_false, not_or] at plain
  rcases plain with ⟨unquoted, notSquare, notSquareEnd, notCurly, notCurlyEnd, notSpace, sameLine⟩
  refine ⟨?_, fun _ => ?_, sameLine⟩
  · simp [step, isOpening, isClosing, unquoted, notSquare, notSquareEnd, notCurly, notCurlyEnd]
  · simp [isFiller, notSpace, sameLine]

theorem notMem_specials_of_isDigit {char : Char} (digit : Number.isDigit char = true) :
    char ∉ specials := by
  have notDigit : ∀ other ∈ specials, Number.isDigit other = false := by
    simp only [specials, List.forall_mem_cons]
    exact ⟨rfl, rfl, rfl, rfl, rfl, rfl, rfl, List.forall_mem_nil _⟩
  intro member
  rw [notDigit char member] at digit
  cases digit

theorem Numeral.Writes.notMem_specials {numeral : Numeral} {text : List Char}
    (written : numeral.Writes text) : ∀ char ∈ text, char ∉ specials := by
  have digits : ∀ {row}, Number.Literal.isDigits row = true → ∀ char ∈ row, char ∉ specials :=
    fun isDigits _ member =>
      notMem_specials_of_isDigit (Number.Literal.isDigit_of_mem isDigits member)
  rcases written with ⟨negative, isWhole, hasFraction, hasExponent⟩
  simp only [List.forall_mem_append]
  refine ⟨?sign, digits isWhole.digits, ?fraction, ?exponent⟩
  case sign => cases negative <;> simp [signText, specials]
  case fraction =>
    cases hasFraction with
    | absent => exact List.forall_mem_nil _
    | present isDigits => exact List.forall_mem_cons.mpr ⟨by decide, digits isDigits⟩
  case exponent =>
    rcases hasExponent with _ | ⟨mark, power⟩
    · exact List.forall_mem_nil _
    · refine List.forall_mem_cons.mpr ⟨by rcases mark with rfl | rfl <;> decide, ?_⟩
      cases power with
      | unsigned isDigits => exact digits isDigits
      | plus isDigits => exact List.forall_mem_cons.mpr ⟨by decide, digits isDigits⟩
      | minus isDigits => exact List.forall_mem_cons.mpr ⟨by decide, digits isDigits⟩

/-! ## Entries -/

structure LaysEntry (level depth : Nat) (lines line : List Char) : Prop where
  lays : Lays level ⟨.outside, depth⟩ ⟨.outside, depth⟩ lines line
  starts : ∃ char rest, lines = char :: rest ∧ isFiller char = false ∧ isClosing char = false

namespace LaysEntry

variable {level depth : Nat} {lines line : List Char}

theorem newline (entry : LaysEntry level depth lines line) :
    Lays level ⟨.outside, depth⟩ ⟨.outside, depth⟩
      ((Value.lineBreak (some (level + depth))).toList ++ lines) line := by
  rcases entry with ⟨lays, char, rest, rfl, solid, notClosing⟩
  have around : Cursor.around ⟨.outside, depth⟩ char = depth := by
    simp [Cursor.around, notClosing]
  have ownLine := lays.newline solid
  rwa [around] at ownLine

theorem string (text : String) :
    LaysEntry level depth (Value.quote text).toList (Value.quote text).toList := by
  rw [Value.toList_quote]
  have closing : Lays level ⟨.inside, depth⟩ ⟨.outside, depth⟩ ['"'] ['"'] :=
    .cons nofun (by decide) .nil
  have inside := (Value.spells_flatMap_escapeChar text.toList).lays.append closing
  exact ⟨.cons (fun _ => rfl) (by decide) inside, _, _, rfl, rfl, rfl⟩

theorem row {α : Type} (lines line : α → List Char) (first : α) (rest : List α)
    (each : ∀ item ∈ first :: rest, LaysEntry level depth (lines item) (line item)) :
    Lays level ⟨.outside, depth⟩ ⟨.outside, depth⟩
      ([','].intercalate ((first :: rest).map fun item =>
        (Value.lineBreak (some (level + depth))).toList ++ lines item))
      ([','].intercalate ((first :: rest).map line)) := by
  induction rest generalizing first with
  | nil => simpa using (each first List.mem_cons_self).newline
  | cons second rest induction =>
      rw [List.forall_mem_cons] at each
      have others : Lays level ⟨.outside, depth⟩ ⟨.outside, depth⟩ (',' :: _) (',' :: _) :=
        .cons (fun _ => rfl) (by decide) (induction second each.2)
      simp only [List.map_cons, List.intercalate_cons_cons, List.append_assoc] at others ⊢
      rw [← List.append_assoc]
      exact each.1.newline.append others

theorem word {text : List Char} (nonempty : text ≠ []) (plain : ∀ char ∈ text, char ∉ specials) :
    LaysEntry level depth text text := by
  refine ⟨.of_passes fun char member => Cursor.passes_outside (plain char member), ?_⟩
  cases text with
  | nil => exact absurd rfl nonempty
  | cons char rest =>
      have first := plain char List.mem_cons_self
      simp only [specials, List.mem_cons, List.not_mem_nil, or_false, not_or] at first
      exact ⟨char, rest, rfl, by simp [isFiller, first], by simp [isClosing, first]⟩

theorem number (value : Float) :
    LaysEntry level depth (Number.jsonText value).toList (Number.jsonText value).toList := by
  by_cases finite : Number.isFinite value = true
  · rcases Numeral.exists_writes_jsonText finite with ⟨numeral, written, _⟩
    refine word ?_ written.notMem_specials
    rcases written.exists_cons with ⟨char, rest, same, _⟩
    simp [same]
  · have text : Number.jsonText value = "null" := by simp [Number.jsonText, finite]
    rw [text]
    exact word (by decide) (by simp [specials])

/-- A key and its value. -/
theorem field (key : String) (value : LaysEntry level depth lines line) :
    LaysEntry level depth
      ((Value.quote key).toList ++ ((Value.colon (some (level + depth))).toList ++ lines))
      ((Value.quote key).toList ++ ((Value.colon none).toList ++ line)) := by
  have quoted : LaysEntry level depth (Value.quote key).toList (Value.quote key).toList :=
    string key
  have colon : Lays level ⟨.outside, depth⟩ ⟨.outside, depth⟩ [':', ' '] [':'] :=
    .cons (fun _ => rfl) (by decide) (.spaces 1)
  rcases quoted.starts with ⟨char, rest, same, solid⟩
  refine ⟨quoted.lays.append (.append ?_ value.lays), char, _, congrArg (· ++ _) same, solid⟩
  simpa [Value.colon] using colon

/-- A bracketed row of entries. An empty one stays on its line. -/
theorem bracketed {α : Type} {opener closer : String} {left right : Char}
    (opens : opener.toList = [left]) (closes : closer.toList = [right])
    (opening : isOpening left = true) (closing : isClosing right = true) (lines line : α → String)
    (items : List α)
    (each : ∀ item ∈ items, LaysEntry level (depth + 1) (lines item).toList (line item).toList) :
    LaysEntry level depth
      (Value.bracketed (some (level + depth)) opener closer
        (items.map fun item => Value.lineBreak (some (level + (depth + 1))) ++ lines item)).toList
      (Value.bracketed none opener closer
        (items.map fun item => Value.lineBreak none ++ line item)).toList := by
  have opened : ∀ {inside other : List Char},
      Lays level ⟨.outside, depth + 1⟩ ⟨.outside, depth⟩ inside other →
      LaysEntry level depth (left :: inside) (left :: other) := by
    intro inside other lays
    rcases Bool.or_eq_true_iff.mp opening with isLeft | isLeft <;>
      cases of_decide_eq_true isLeft <;>
      exact ⟨.cons (fun _ => rfl) (by decide) lays, _, _, rfl, rfl, rfl⟩
  have closed : isFiller right = false ∧
      Lays level ⟨.outside, depth + 1⟩ ⟨.outside, depth⟩ [right] [right] := by
    rcases Bool.or_eq_true_iff.mp closing with isRight | isRight <;>
      cases of_decide_eq_true isRight <;>
      exact ⟨rfl, .cons (fun _ => rfl) (by decide) .nil⟩
  cases items with
  | nil => simpa [Value.bracketed, opens, closes] using opened closed.2
  | cons first rest =>
      have entries := row (fun item => (lines item).toList) (fun item => (line item).toList)
        first rest each
      have around : Cursor.around ⟨.outside, depth + 1⟩ right = depth := by
        simp [Cursor.around, closing]
      have lastLine := closed.2.newline closed.1
      rw [around] at lastLine
      have noBreak : (Value.lineBreak none).toList = [] := by simp [Value.lineBreak]
      rw [toList_bracketed (by simp), toList_bracketed (by simp), opens, closes]
      simp only [List.map_map, Function.comp_def, String.toList_append, noBreak, List.nil_append]
      exact opened (entries.append lastLine)

end LaysEntry

end Json

namespace Value

theorem laysEntry_jsonAt (value : Value) (level depth : Nat) :
    Json.LaysEntry level depth (value.jsonAt (some (level + depth))).toList
      (value.jsonAt none).toList := by
  have deeper : ∀ depth, inner (some (level + depth)) = some (level + (depth + 1)) := fun _ => rfl
  induction value generalizing depth with
  | null =>
      rw [jsonAt, jsonAt]
      exact .word (by decide) (by simp [Json.specials])
  | bool value =>
      cases value <;> rw [jsonAt, jsonAt] <;> exact .word (by decide) (by simp [Json.specials])
  | number value =>
      rw [jsonAt, jsonAt]
      exact .number value
  | string text =>
      rw [jsonAt, jsonAt]
      exact .string text
  | function callee =>
      rw [jsonAt, jsonAt]
      exact .string _
  | list items induction =>
      rw [jsonAt, jsonAt, jsonItems_eq_map, jsonItems_eq_map, deeper]
      refine .bracketed (show "[".toList = ['['] from rfl) (show "]".toList = [']'] from rfl)
        rfl rfl _ _ items ?_
      intro item member
      exact induction item member (depth + 1)
  | object fields induction =>
      rw [jsonAt, jsonAt, jsonFields_eq_map, jsonFields_eq_map, deeper]
      simp only [String.append_assoc]
      refine .bracketed (show "\x7b".toList = ['\x7b'] from rfl)
        (show "\x7d".toList = ['\x7d'] from rfl) rfl rfl _ _ fields ?_
      intro field member
      simp only [String.toList_append]
      exact .field field.1 (induction field member (depth + 1))

/-- The text of a value on many lines is its text on one line but for spaces and newlines outside
strings, and its lines are indented by what is open around their first characters. -/
theorem lines_strip_to_line (value : Value) (level : Nat) :
    Json.Cursor.start.strip (value.jsonAt (some level)).toList = (value.jsonAt none).toList ∧
      ∀ front rest, (value.jsonAt (some level)).toList = front ++ '\n' :: rest →
        let cursor := Json.Cursor.start.after front
        cursor.quoting = .outside ∧
          ∃ char tail, Json.isFiller char = false ∧
            rest = List.replicate (2 * (level + cursor.around char)) ' ' ++ char :: tail := by
  have lays := (value.laysEntry_jsonAt level 0).lays
  exact ⟨lays.strip, lays.indented⟩

/-- A line that closes a list, behind strings that hold a space, a quotation mark and a
backslash. -/
theorem lines_strip_to_line_nested :
    let value : Value := .object [("a \"", .list [.string "\\", .object []])]
    let front := "\x7b\n    \"a \\\"\": [\n      \"\\\\\",\n      \x7b\x7d".toList
    let rest := "    ]\n  \x7d".toList
    (value.jsonAt (some 1)).toList = front ++ '\n' :: rest ∧
      Json.Cursor.start.strip (front ++ '\n' :: rest) =
        "\x7b\"a \\\"\":[\"\\\\\",\x7b\x7d]\x7d".toList ∧
      ∃ char tail, Json.isFiller char = false ∧ rest = List.replicate
        (2 * (1 + (Json.Cursor.start.after front).around char)) ' ' ++ char :: tail := by
  intro value front rest
  have text : (value.jsonAt (some 1)).toList = front ++ '\n' :: rest := by decide +kernel
  have line : (value.jsonAt none).toList =
      "\x7b\"a \\\"\":[\"\\\\\",\x7b\x7d]\x7d".toList := by
    decide +kernel
  rcases lines_strip_to_line value 1 with ⟨stripped, indented⟩
  rw [text, line] at stripped
  exact ⟨text, stripped, (indented front rest text).2⟩

end Value

end RuleLisp
