import RuleLisp.Proofs.Json.Grammar
import RuleLisp.Proofs.Number.Decimal

/-! # Reading what the grammar allows

Every text of the grammar is read as the tree that it stands for, as long as its brackets do not
nest too deep. The readers of the parts of a text go on as far as they can, so for each of them the
lemma says what may follow.
-/

namespace RuleLisp.Json

/-! ## White space -/

theorem skipSpace_append {before : List Char} (space : IsSpace before) (text : List Char) :
    skipSpace (before ++ text) = skipSpace text :=
  List.dropWhile_append_of_pos space

theorem skipSpace_append_cons {before : List Char} (space : IsSpace before) {char : Char}
    (solid : isSpace char = false) (text : List Char) :
    skipSpace (before ++ char :: text) = char :: text := by
  rw [skipSpace_append space]
  exact List.dropWhile_cons_of_neg (by simp [solid])

theorem skipSpace_eq_nil {text : List Char} (space : IsSpace text) : skipSpace text = [] := by
  rw [← List.append_nil text, skipSpace_append space]
  rfl

/-! ## Strings -/

theorem readString?_cons {state next : StringState} {before after : List Char} {char : Char}
    (stepped : stringStep state before char = some (after, next))
    (inside : state = .plain → char = '"' → False) (rest : List Char) :
    readString? state before (char :: rest) = readString? next after rest := by
  rw [readString?, stepped]
  exact inside

theorem stringStep_digit {char : Char} {digit : Nat} (read : hexValue? char = some digit)
    (first : Option Nat) (digits value : Nat) (before : List Char) :
    stringStep (.numbered first (digits + 1) value) before char =
      some (before, .numbered first digits (value * 16 + digit)) := by
  simp [stringStep, read]

/-- The last of the four digits decides what comes of the number. -/
theorem readString?_digits {digits : List Char} {code : Nat} (written : HexCode digits code)
    {first : Option Nat} {before after : List Char} {next : StringState}
    (finished : ∀ char digit value, hexValue? char = some digit → value * 16 + digit = code →
      stringStep (.numbered first 0 value) before char = some (after, next))
    (rest : List Char) :
    readString? (.numbered first 3 0) before (digits ++ rest) = readString? next after rest := by
  rcases written with ⟨firstDigit, secondDigit, thirdDigit, lastDigit⟩
  simp only [List.cons_append, List.nil_append]
  rw [readString?_cons (stringStep_digit firstDigit ..) nofun,
    readString?_cons (stringStep_digit secondDigit ..) nofun,
    readString?_cons (stringStep_digit thirdDigit ..) nofun]
  exact readString?_cons (finished _ _ _ lastDigit (by omega)) nofun rest

theorem escapeValue?_of_mem {letter char : Char} (escape : (letter, char) ∈ shortEscapes) :
    letter ≠ 'u' ∧ escapeValue? letter = some char := by
  simp only [shortEscapes, List.mem_cons, Prod.mk.injEq, List.not_mem_nil, or_false] at escape
  rcases escape with ⟨rfl, rfl⟩ | ⟨rfl, rfl⟩ | ⟨rfl, rfl⟩ | ⟨rfl, rfl⟩ | ⟨rfl, rfl⟩ | ⟨rfl, rfl⟩ |
    ⟨rfl, rfl⟩ | ⟨rfl, rfl⟩ <;> decide

theorem stringStep_last {char digitChar : Char} {digit value : Nat}
    (read : hexValue? digitChar = some digit) (code : value * 16 + digit = char.toNat)
    (before : List Char) :
    stringStep (.numbered none 0 value) before digitChar = some (char :: before, .plain) := by
  -- No character has the number of half a pair.
  have valid : char.toNat < 0xD800 ∨ 0xDFFF < char.toNat := by
    rcases char.valid with low | high
    · exact .inl low
    · exact .inr high.1
  have notFirst : ¬(0xD800 ≤ char.toNat ∧ char.toNat ≤ 0xDBFF) := by omega
  have notSecond : ¬(0xDC00 ≤ char.toNat ∧ char.toNat ≤ 0xDFFF) := by omega
  simp only [stringStep, read, code, ne_eq, not_true_eq_false, if_false, notFirst, notSecond,
    Char.ofNat_toNat]

theorem stringStep_first {digitChar : Char} {digit value high : Nat}
    (read : hexValue? digitChar = some digit) (code : value * 16 + digit = 0xD800 + high)
    (bound : high < 0x400) (before : List Char) :
    stringStep (.numbered none 0 value) before digitChar =
      some (before, .half (0xD800 + high)) := by
  have isFirst : 0xD800 ≤ 0xD800 + high ∧ 0xD800 + high ≤ 0xDBFF := by omega
  simp only [stringStep, read, code, ne_eq, not_true_eq_false, if_false, isFirst, and_self, if_true]

theorem stringStep_second {char digitChar : Char} {digit value high low : Nat}
    (read : hexValue? digitChar = some digit) (code : value * 16 + digit = 0xDC00 + low)
    (bound : low < 0x400) (joined : char.toNat = 0x10000 + high * 0x400 + low)
    (before : List Char) :
    stringStep (.numbered (some (0xD800 + high)) 0 value) before digitChar =
      some (char :: before, .plain) := by
  have isSecond : 0xDC00 ≤ 0xDC00 + low ∧ 0xDC00 + low ≤ 0xDFFF := by omega
  simp only [stringStep, read, code, ne_eq, not_true_eq_false, if_false, isSecond, and_self,
    if_true, Nat.add_sub_cancel_left, ← joined, Char.ofNat_toNat]

theorem readString?_spells {chars text : List Char} (spelled : Spells chars text)
    (before rest : List Char) :
    readString? .plain before (text ++ '"' :: rest) =
      some (String.ofList (before.reverse ++ chars), rest) := by
  induction spelled generalizing before with
  | nil => simp [readString?]
  | @plain char chars text visible unquoted unescaped _ induction =>
      have stepped : stringStep .plain before char = some (char :: before, .plain) := by
        simp [stringStep, unescaped, Nat.not_lt.mpr visible]
      rw [List.cons_append, readString?_cons stepped fun _ => unquoted, induction]
      simp
  | @short char letter chars text escape _ induction =>
      rcases escapeValue?_of_mem escape with ⟨notNumber, value⟩
      have stepped : stringStep .escaped before letter = some (char :: before, .plain) := by
        simp [stringStep, notNumber, value]
      change readString? .escaped before (letter :: (text ++ '"' :: rest)) = _
      rw [readString?_cons stepped nofun, induction]
      simp
  | @numbered char digits chars text code _ induction =>
      change readString? (.numbered none 3 0) before (digits ++ text ++ '"' :: rest) = _
      rw [List.append_assoc, readString?_digits code fun _ _ _ read same =>
        stringStep_last read same before, induction]
      simp
  | @pair char high low digits others chars text highBound lowBound joined code otherCode _
      induction =>
      change readString? (.numbered none 3 0) before
        (digits ++ '\\' :: 'u' :: (others ++ text) ++ '"' :: rest) = _
      rw [List.append_assoc, readString?_digits code fun _ _ _ read same =>
        stringStep_first read same highBound before]
      change readString? (.numbered (some (0xD800 + high)) 3 0) before
        (others ++ text ++ '"' :: rest) = _
      rw [List.append_assoc, readString?_digits otherCode fun _ _ _ read same =>
        stringStep_second read same lowBound joined before, induction]
      simp

/-! ## Numerals -/

/-- A numeral does not go on with such a character. -/
structure EndsNumeral (char : Char) : Prop where
  digit : Number.isDigit char = false
  point : char ≠ '.'
  mark : ¬(char = 'e' ∨ char = 'E')

def Follows (rest : List Char) : Prop :=
  ∀ char ∈ rest.head?, EndsNumeral char

theorem exists_cons_of_isDigits {row : List Char} (digits : Number.Literal.isDigits row = true) :
    ∃ char more, row = char :: more ∧ Number.isDigit char = true := by
  cases row with
  | nil => cases digits
  | cons char more =>
      exact ⟨char, more, rfl, Number.Literal.isDigit_of_mem digits List.mem_cons_self⟩

theorem spanDigits_append {row rest : List Char} (digits : Number.Literal.isDigits row = true)
    (ends : ∀ char ∈ rest.head?, Number.isDigit char = false) :
    spanDigits (row ++ rest) = (row, rest) := by
  have all : ∀ char ∈ row, Number.isDigit char = true :=
    fun _ member => Number.Literal.isDigit_of_mem digits member
  rw [spanDigits, List.takeWhile_append_of_pos all, List.dropWhile_append_of_pos all]
  cases rest with
  | nil => simp
  | cons char rest => simp [ends char rfl]

namespace Numeral

variable {text rest : List Char}

theorem readPower?_append (negative : Bool) {row : List Char}
    (digits : Number.Literal.isDigits row = true)
    (ends : ∀ char ∈ rest.head?, Number.isDigit char = false) :
    readPower? negative (row ++ rest) =
      some (if negative then -(Number.digitsValue row : Int) else Number.digitsValue row,
        rest) := by
  rcases exists_cons_of_isDigits digits with ⟨char, more, rfl, _⟩
  simp only [readPower?, spanDigits_append digits ends]
  rfl

theorem readExponent?_append {exponent : Int} (written : WritesExponent exponent text)
    (follows : Follows rest) : readExponent? (text ++ rest) = some (exponent, rest) := by
  have ends : ∀ char ∈ rest.head?, Number.isDigit char = false :=
    fun char first => (follows char first).digit
  cases written with
  | absent =>
      cases rest with
      | nil => rfl
      | cons char rest => exact if_neg (follows char rfl).mark
  | present mark written =>
      refine (if_pos mark).trans ?_
      cases written with
      | plus digits => exact readPower?_append false digits ends
      | minus digits => exact readPower?_append true digits ends
      | unsigned digits =>
          rcases exists_cons_of_isDigits digits with ⟨char, more, rfl, digit⟩
          split
          · next same =>
              cases (List.cons.inj same).1
              cases digit
          · next same =>
              cases (List.cons.inj same).1
              cases digit
          · exact readPower?_append false digits ends

/-- Neither a digit nor a point follows the digits after the point. -/
theorem WritesExponent.ends {exponent : Int} (written : WritesExponent exponent text)
    (follows : Follows rest) :
    ∀ char ∈ (text ++ rest).head?, Number.isDigit char = false ∧ char ≠ '.' := by
  intro char first
  cases written with
  | absent => exact ⟨(follows char first).digit, (follows char first).point⟩
  | present mark _ =>
      cases first
      rcases mark with rfl | rfl <;> decide

theorem readFraction?_append {fraction : List Char} (written : WritesFraction fraction text)
    (ends : ∀ char ∈ rest.head?, Number.isDigit char = false ∧ char ≠ '.') :
    readFraction? (text ++ rest) = some (fraction, rest) := by
  cases written with
  | absent =>
      rw [List.nil_append, readFraction?]
      intro more same
      exact (ends '.' (congrArg List.head? same)).2 rfl
  | present digits =>
      rw [List.cons_append, readFraction?,
        spanDigits_append digits fun char first => (ends char first).1]
      rcases exists_cons_of_isDigits digits with ⟨char, more, rfl, _⟩
      rfl

theorem WritesFraction.ends {fraction : List Char} (written : WritesFraction fraction text)
    (ends : ∀ char ∈ rest.head?, Number.isDigit char = false ∧ char ≠ '.') :
    ∀ char ∈ (text ++ rest).head?, Number.isDigit char = false := by
  intro char first
  cases written with
  | absent => exact (ends char first).1
  | present _ =>
      cases first
      rfl

theorem readUnsigned?_append (negative : Bool)
    {whole fraction fractionText exponentText : List Char} {exponent : Int}
    (isWhole : IsWhole whole) (hasFraction : WritesFraction fraction fractionText)
    (hasExponent : WritesExponent exponent exponentText) (follows : Follows rest) :
    readUnsigned? negative (whole ++ (fractionText ++ (exponentText ++ rest))) =
      some (⟨negative, whole, fraction, exponent⟩, rest) := by
  have exponentEnds := hasExponent.ends follows
  have spanned := spanDigits_append isWhole.digits (hasFraction.ends exponentEnds)
  have wellFormed : ¬(whole.isEmpty ∨ whole.head? = some '0' ∧ whole.length ≠ 1) := by
    rintro (empty | ⟨zero, more⟩)
    · rcases exists_cons_of_isDigits isWhole.digits with ⟨char, more, rfl, _⟩
      cases empty
    · exact more (isWhole.zero zero)
  simp only [readUnsigned?, spanned, if_neg wellFormed,
    readFraction?_append hasFraction exponentEnds, readExponent?_append hasExponent follows,
    Option.bind_eq_bind, Option.bind_some]

theorem readNumeral?_append {numeral : Numeral} (written : numeral.Writes text)
    (follows : Follows rest) : readNumeral? (text ++ rest) = some (numeral, rest) := by
  rcases written with ⟨negative, isWhole, hasFraction, hasExponent⟩
  have read := readUnsigned?_append negative isWhole hasFraction hasExponent follows
  simp only [List.append_assoc]
  cases negative with
  | true => exact read
  | false =>
      rcases exists_cons_of_isDigits isWhole.digits with ⟨char, more, rfl, digit⟩
      rw [← read]
      apply readNumeral?.eq_2
      intro rest same
      cases (List.cons.inj same).1
      cases digit

/-- A numeral starts with a minus sign or a digit. -/
theorem Writes.exists_cons {numeral : Numeral} (written : numeral.Writes text) :
    ∃ char more, text = char :: more ∧ (char = '-' ∨ Number.isDigit char = true) := by
  rcases written with ⟨negative, isWhole, _, _⟩
  cases negative with
  | true => exact ⟨'-', _, rfl, .inl rfl⟩
  | false =>
      rcases exists_cons_of_isDigits isWhole.digits with ⟨char, more, rfl, digit⟩
      exact ⟨char, _, rfl, .inr digit⟩

end Numeral

/-! ## Rows -/

theorem EndsNumeral.follows_cons {char : Char} (ends : EndsNumeral char) (rest : List Char) :
    Follows (char :: rest) := by
  intro first same
  cases same
  exact ends

theorem IsSpace.follows_append {after : List Char} (space : IsSpace after) {rest : List Char}
    (follows : Follows rest) : Follows (after ++ rest) := by
  cases after with
  | nil => exact follows
  | cons char after =>
      intro first same
      cases same
      have blank := space char List.mem_cons_self
      simp only [isSpace, Bool.or_eq_true, decide_eq_true_eq] at blank
      rcases blank with ((rfl | rfl) | rfl) | rfl <;> exact ⟨rfl, by decide, by decide⟩

structure Reads {α : Type} (read : List Char → Option (α × List Char)) (item : α)
    (text : List Char) : Prop where
  /-- An entry is told from white space and from the end of a row by its first character. -/
  exists_cons : ∃ char more, text = char :: more ∧ isSpace char = false ∧ char ≠ ']' ∧
    char ≠ '\x7d'
  read_append : ∀ {before rest}, IsSpace before → Follows rest →
    read (before ++ (text ++ rest)) = some (item, rest)

section

variable {α : Type} {entry other : α → List Char → Prop} {items : List α} {text : List Char}

theorem Row.mono (row : Row entry items text)
    (weaker : ∀ item ∈ items, ∀ text, entry item text → other item text) :
    Row other items text := by
  induction row with
  | last written space => exact .last (weaker _ List.mem_cons_self _ written) space
  | cons written space otherSpace _ induction =>
      rw [List.forall_mem_cons] at weaker
      exact .cons (weaker.1 _ written) space otherSpace (induction weaker.2)

theorem Inside.mono (inside : Inside entry items text)
    (weaker : ∀ item ∈ items, ∀ text, entry item text → other item text) :
    Inside other items text := by
  cases inside with
  | empty space => exact .empty space
  | row space row => exact .row space (row.mono weaker)

theorem Row.length_le (row : Row entry items text) : items.length ≤ text.length + 1 := by
  induction row with
  | last => simp
  | cons _ _ _ _ induction =>
      simp only [List.length_cons, List.length_append] at *
      omega

variable {read : List Char → Option (α × List Char)} {closer : Char}
  (closing : closer = ']' ∨ closer = '\x7d')

include closing

theorem isSpace_closing : isSpace closer = false := by
  rcases closing with rfl | rfl <;> rfl

theorem endsNumeral_closing : EndsNumeral closer := by
  rcases closing with rfl | rfl <;> exact ⟨rfl, by decide, by decide⟩

theorem readItems?_row (row : Row (Reads read) items text) {fuel : Nat}
    (enough : items.length ≤ fuel) {before : List Char} (space : IsSpace before)
    (rest : List Char) :
    readItems? read closer fuel (before ++ (text ++ closer :: rest)) = some (items, rest) := by
  induction row generalizing fuel before with
  | last reads after =>
      rcases fuel with _ | fuel
      · cases enough
      have follows := after.follows_append ((endsNumeral_closing closing).follows_cons rest)
      rw [List.append_assoc, readItems?, reads.read_append space follows]
      simp only [Option.bind_eq_bind, Option.bind_some,
        skipSpace_append_cons after (isSpace_closing closing), if_true]
  | @cons item items _ after between others reads afterSpace otherSpace _ induction =>
      rcases fuel with _ | fuel
      · cases enough
      have comma : EndsNumeral ',' := ⟨rfl, by decide, by decide⟩
      have solid : isSpace ',' = false := rfl
      have different : ',' ≠ closer := by
        rcases closing with rfl | rfl <;> decide
      have follows : Follows (after ++ ',' :: (between ++ (others ++ closer :: rest))) :=
        afterSpace.follows_append (comma.follows_cons _)
      have readRest : readItems? read closer fuel (between ++ (others ++ closer :: rest)) =
          some (items, rest) :=
        induction (Nat.le_of_succ_le_succ enough) otherSpace
      simp only [List.append_assoc, List.cons_append]
      rw [readItems?, reads.read_append space follows]
      simp only [Option.bind_eq_bind, Option.bind_some, skipSpace_append_cons afterSpace solid,
        if_neg different, if_true, readRest]

theorem Row.exists_cons (row : Row (Reads read) items text) :
    ∃ char more, text = char :: more ∧ isSpace char = false ∧ char ≠ closer := by
  have start : ∀ {item : α} {text : List Char} (rest : List Char), Reads read item text →
      ∃ char more, text ++ rest = char :: more ∧ isSpace char = false ∧ char ≠ closer := by
    intro item text rest reads
    rcases reads.exists_cons with ⟨char, more, rfl, solid, notSquare, notCurly⟩
    refine ⟨char, more ++ rest, rfl, solid, ?_⟩
    rcases closing with rfl | rfl
    · exact notSquare
    · exact notCurly
  cases row with
  | last reads _ => exact start _ reads
  | cons reads _ _ _ => exact start _ reads

theorem readBracket?_inside (inside : Inside (Reads read) items text) (rest : List Char) :
    readBracket? read closer (text ++ closer :: rest) = some (items, rest) := by
  cases inside with
  | empty space =>
      simp only [readBracket?, skipSpace_append_cons space (isSpace_closing closing), if_true]
  | @row _ before text space row =>
      rcases row.exists_cons closing with ⟨char, more, rfl, solid, different⟩
      have skipped : skipSpace (before ++ (char :: more ++ closer :: rest)) =
          char :: more ++ closer :: rest :=
        skipSpace_append_cons space solid _
      have enough : items.length ≤ (before ++ (char :: more ++ closer :: rest)).length := by
        have length := row.length_le
        simp only [List.length_append, List.length_cons] at *
        omega
      rw [List.append_assoc, readBracket?, skipped]
      refine (if_neg different).trans ?_
      exact readItems?_row closing row enough (show IsSpace [] from nofun) rest

end

/-! ## Trees -/

theorem readTree?_append (inside : Option (List Char → Option (Json × List Char)))
    {before : List Char} (space : IsSpace before) (text : List Char) :
    readTree? inside (before ++ text) = readTree? inside text := by
  rw [readTree?, readTree?, skipSpace_append space]

theorem reads_word (inside : Option (List Char → Option (Json × List Char))) {json : Json}
    {char : Char} {more : List Char}
    (start : isSpace char = false ∧ char ≠ ']' ∧ char ≠ '\x7d')
    (read : ∀ rest, readTree? inside (char :: (more ++ rest)) = some (json, rest)) :
    Reads (readTree? inside) json (char :: more) := by
  refine ⟨⟨char, more, rfl, start⟩, ?_⟩
  intro before rest space _
  rw [readTree?_append inside space]
  exact read rest

theorem ne_of_isDigit {char other : Char} (digit : Number.isDigit char = true)
    (notDigit : Number.isDigit other = false) : char ≠ other := by
  intro same
  rw [same, notDigit] at digit
  cases digit

/-- A numeral is told from all other trees by its first character. -/
theorem solid_of_numeral {char : Char} (start : char = '-' ∨ Number.isDigit char = true) :
    isSpace char = false ∧ char ≠ '"' ∧ char ≠ '[' ∧ char ≠ '\x7b' ∧ char ≠ ']' ∧
      char ≠ '\x7d' := by
  rcases start with rfl | digit
  · decide
  · refine ⟨?_, ne_of_isDigit digit rfl, ne_of_isDigit digit rfl, ne_of_isDigit digit rfl,
      ne_of_isDigit digit rfl, ne_of_isDigit digit rfl⟩
    simp only [isSpace, ne_of_isDigit digit (show Number.isDigit ' ' = false from rfl),
      ne_of_isDigit digit (show Number.isDigit '\t' = false from rfl),
      ne_of_isDigit digit (show Number.isDigit '\n' = false from rfl),
      ne_of_isDigit digit (show Number.isDigit '\r' = false from rfl), decide_false, Bool.or_self]

theorem reads_numeral (inside : Option (List Char → Option (Json × List Char)))
    {numeral : Numeral} {text : List Char} (written : numeral.Writes text) :
    Reads (readTree? inside) (.number numeral) text := by
  rcases written.exists_cons with ⟨char, more, rfl, start⟩
  rcases solid_of_numeral start with ⟨solid, notQuote, notSquare, notCurly, notEnd, notOtherEnd⟩
  refine ⟨⟨char, more, rfl, solid, notEnd, notOtherEnd⟩, ?_⟩
  intro before rest space follows
  rw [readTree?, List.cons_append, skipSpace_append_cons space solid]
  simp only [if_neg notQuote, if_neg notSquare, if_neg notCurly, if_pos start]
  rw [← List.cons_append, Numeral.readNumeral?_append written follows]
  rfl

theorem reads_string (inside : Option (List Char → Option (Json × List Char)))
    {chars text : List Char} (spelled : Spells chars text) :
    Reads (readTree? inside) (.string (String.ofList chars)) ('"' :: (text ++ ['"'])) := by
  refine ⟨⟨'"', _, rfl, rfl, by decide, by decide⟩, ?_⟩
  intro before rest space _
  rw [readTree?_append inside space, List.cons_append, List.append_assoc]
  change (readString? .plain [] (text ++ '"' :: rest)).map _ = _
  rw [readString?_spells spelled]
  rfl

theorem Member.reads {value : Json → List Char → Prop}
    {read : List Char → Option (Json × List Char)} {member : String × Json} {text : List Char}
    (written : Member value member text)
    (reads : ∀ text, value member.2 text → Reads read member.2 text) :
    Reads (readMember? read) member text := by
  rcases written with ⟨spelled, afterSpace, betweenSpace, written⟩
  refine ⟨⟨'"', _, rfl, rfl, by decide, by decide⟩, ?_⟩
  intro before rest space follows
  have solid : isSpace ':' = false := rfl
  have quote : isSpace '"' = false := rfl
  simp only [List.append_assoc, List.cons_append]
  simp only [readMember?, skipSpace_append_cons space quote, readString?_spells spelled,
    Option.bind_eq_bind, Option.bind_some, skipSpace_append_cons afterSpace solid,
    (reads _ written).read_append betweenSpace follows, List.reverse_nil, List.nil_append]

theorem exists_readLevels?_eq (levels : Nat) :
    ∃ inside, readLevels? levels = readTree? inside := by
  cases levels with
  | zero => exact ⟨none, rfl⟩
  | succ levels => exact ⟨some (readLevels? levels), rfl⟩

/-- What the grammar allows is read as what it stands for. -/
theorem Writes.reads {json : Json} {levels : Nat} (nests : json.NestsWithin levels)
    {text : List Char} (written : json.Writes text) : Reads (readLevels? levels) json text := by
  induction json generalizing levels text with
  | null =>
      rcases exists_readLevels?_eq levels with ⟨inside, same⟩
      cases written
      rw [same]
      exact reads_word inside (by decide) fun _ => rfl
  | bool value =>
      rcases exists_readLevels?_eq levels with ⟨inside, same⟩
      rw [same]
      cases written with
      | true => exact reads_word inside (by decide) fun _ => rfl
      | false => exact reads_word inside (by decide) fun _ => rfl
  | number numeral =>
      rcases exists_readLevels?_eq levels with ⟨inside, same⟩
      rcases written with _ | _ | _ | ⟨written⟩
      rw [same]
      exact reads_numeral inside written
  | string text =>
      rcases exists_readLevels?_eq levels with ⟨inside, same⟩
      rcases written with _ | _ | _ | _ | ⟨spelled⟩
      rw [same]
      exact reads_string inside spelled
  | array items induction =>
      rcases nests with _ | _ | _ | _ | @⟨levels, _, nests⟩
      rcases written with _ | _ | _ | _ | _ | @⟨_, text, written⟩
      have entries : Inside (Reads (readLevels? levels)) items text :=
        written.mono fun item member _ written => induction item member (nests item member) written
      refine ⟨⟨'[', _, rfl, rfl, by decide, by decide⟩, ?_⟩
      intro before rest space _
      rw [readLevels?, readTree?_append _ space, List.cons_append, List.append_assoc]
      change (readBracket? (readLevels? levels) ']' (text ++ ']' :: rest)).bind _ = _
      rw [readBracket?_inside (.inl rfl) entries]
      rfl
  | object members induction =>
      rcases nests with _ | _ | _ | _ | _ | @⟨levels, _, nests⟩
      rcases written with _ | _ | _ | _ | _ | _ | @⟨_, text, written⟩
      have entries : Inside (Reads (readMember? (readLevels? levels))) members text :=
        written.mono fun member among _ written => written.reads fun _ written =>
          induction member among (nests member among) written
      refine ⟨⟨'\x7b', _, rfl, rfl, by decide, by decide⟩, ?_⟩
      intro before rest space _
      rw [readLevels?, readTree?_append _ space, List.cons_append, List.append_assoc]
      change (readBracket? (readMember? (readLevels? levels)) '\x7d'
        (text ++ '\x7d' :: rest)).bind _ = _
      rw [readBracket?_inside (.inr rfl) entries]
      rfl

theorem parse?_of_writesText {json : Json} {text : String} (written : json.WritesText text.toList)
    (nests : json.NestsWithin maxLevels) : parse? text = some json := by
  unfold parse?
  generalize text.toList = chars at written
  rcases written with ⟨space, written, otherSpace⟩
  have follows := otherSpace.follows_append (show Follows [] from nofun)
  rw [List.append_nil] at follows
  simp only [(written.reads nests).read_append space follows, skipSpace_eq_nil otherSpace]
  rfl

end RuleLisp.Json
