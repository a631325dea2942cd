import RuleLisp.Proofs.Expr.RoundTrip
import RuleLisp.Proofs.Table
import RuleLisp.Proofs.Token.Tiling

/-! # Keys of object literals

A key is written bare or between quotation marks, and a key that has no quotation mark in it is read
back from what is written. A key can also be a word with quoted runs in it. Another pair of marks
around such a word turns its runs inside out: the text may fall apart into several words, and the
first of them is never the key.
-/

namespace RuleLisp

/-! ## The first word of a source -/

namespace Scan

/-- A character goes to the current word, or ends it. -/
theorem next_eq_extend_or_separates (scan : Scan) (char : Char) :
    scan.next char = scan.extend char ∨
      Lexeme.Separates char ∧ (scan.next char).current = none ∧
        ∃ newer, (scan.next char).tokens = newer ++ scan.closed := by
  rcases scan.next_cases char with
    ⟨_, same⟩ | ⟨_, bracket, found, same⟩ | ⟨_, blank, same⟩
  · exact .inl same
  · rw [same]
    exact .inr ⟨.inr (found ▸ rfl), rfl, [_], rfl⟩
  · rw [same]
    exact .inr ⟨.inl blank, rfl, [], rfl⟩

/-- The oldest word of a scan goes on until a character that separates words. -/
theorem exists_oldest_word (text : List Char) (offset : Nat) (word : OpenWord) :
    ∃ front back, text = front ++ back ∧ (∀ char ∈ back.head?, Lexeme.Separates char) ∧
      ∃ token, (read ⟨offset, some word, []⟩ text).closed.getLast? = some token ∧
        token.lexeme = .word (String.ofList (word.chars.reverse ++ front)) := by
  have alone (offset : Nat) (word : OpenWord) : closed ⟨offset, some word, []⟩ =
      [⟨.word (String.ofList word.chars.reverse), ⟨word.start, offset⟩⟩] :=
    rfl
  induction text generalizing offset word with
  | nil =>
      refine ⟨[], [], rfl, by simp, _, rfl, ?_⟩
      rw [List.append_nil]
      rfl
  | cons char rest induction =>
      rcases next_eq_extend_or_separates ⟨offset, some word, []⟩ char with
        same | ⟨separates, between, newer, tokens⟩
      · rcases induction (offset + char.utf8Size)
          ⟨word.start, char :: word.chars, word.quoted ^^ (char = '"')⟩ with
          ⟨front, back, rfl, separates, token, oldest, lexeme⟩
        refine ⟨char :: front, back, rfl, separates, token, ?_, ?_⟩
        · change ((next _ char).read (front ++ back)).closed.getLast? = _
          rw [same]
          exact oldest
        · rw [lexeme, List.reverse_cons, List.append_assoc]
          rfl
      · refine ⟨[], char :: rest, rfl, ?_, ?_⟩
        · rintro _ ⟨⟩
          exact separates
        · change ∃ token, ((next _ char).read rest).closed.getLast? = _ ∧ _
          rw [closed_read_of_current_eq_none between, tokens, alone, ← List.append_assoc,
            List.getLast?_concat, List.append_nil]
          exact ⟨_, rfl, rfl⟩

end Scan

/-- A row that goes on the same with a character in front of it goes on with this character. -/
theorem head?_of_cons_append_eq {char : Char} {rest back : List Char} :
    ∀ {front : List Char}, char :: front ++ char :: rest = front ++ back →
      back.head? = some char
  | [], same => by
      rw [List.nil_append] at same
      rw [← same]
      rfl
  | first :: front, same => by
      rcases List.cons.inj same with ⟨rfl, same⟩
      exact head?_of_cons_append_eq same

theorem Lexeme.not_separates_mark : ¬Separates '"' := by
  rintro (blank | bracket)
  · rw [Scan.isBlank_mark] at blank
    cases blank
  · rw [Scan.bracket?_mark] at bracket
    cases bracket

/-- A text between quotation marks starts with a word that is not this text, whatever follows. -/
theorem Lexeme.exists_head?_scan_marked (text tail : String) :
    ∃ front, (scan ("\"" ++ text ++ "\"" ++ tail)).head? =
        some (.word (String.ofList ('"' :: front))) ∧
      String.ofList ('"' :: front) ≠ text := by
  rcases Scan.exists_oldest_word (text.toList ++ '"' :: tail.toList) 1 ⟨0, ['"'], true⟩ with
    ⟨front, back, split, separates, token, oldest, lexeme⟩
  have chars : ("\"" ++ text ++ "\"" ++ tail).toList =
      '"' :: (text.toList ++ '"' :: tail.toList) := by
    simp
  refine ⟨front, ?_, ?_⟩
  · rw [scan_eq, List.head?_reverse, List.getLast?_map, chars]
    change ((Scan.read ⟨1, some ⟨0, ['"'], true⟩, []⟩ _).closed.getLast?).map Token.lexeme = _
    rw [oldest, Option.map_some, lexeme]
    rfl
  · -- The word would stop before a quotation mark, and no word does.
    rintro rfl
    rw [String.toList_ofList] at split
    exact not_separates_mark (separates '"' (head?_of_cons_append_eq split))

namespace Atom

theorem mark_not_mem_of_ofWord?_eq_string {word text : String}
    (accepted : ofWord? word = some (.string text)) : '"' ∉ text.toList := by
  unfold ofWord? at accepted
  repeat' split at accepted
  iterate 4 cases accepted
  unfold ofText? at accepted
  split at accepted
  · unfold ofQuoted? at accepted
    split at accepted
    · cases accepted
    split at accepted
    · next quoted =>
        cases accepted
        rw [String.toList_ofList]
        exact quoted.2
    · cases accepted
  · cases accepted

/-- A text with a quotation mark in it is the text of no word but itself. -/
theorem eq_of_text?_marked {word text : String} {atom : Atom}
    (accepted : ofWord? word = some atom) (named : atom.text? = some text)
    (marked : '"' ∈ text.toList) : word = text ∧ atom = .symbol text := by
  cases atom with
  | null | bool | number => cases named
  | string other =>
      cases named
      exact absurd marked (mark_not_mem_of_ofWord?_eq_string accepted)
  | symbol name =>
      cases named
      exact ⟨(eq_of_ofWord?_eq_symbol accepted).symm, rfl⟩

end Atom

/-! ## Keys in a source -/

namespace Tree

theorem exists_word_of_mem_keys {limit : Nat} {key : String} :
    ∀ {entries : List (String × Tree)} {properties : List (String × Expr)},
      DerivesEntries limit entries properties → key ∈ Table.keys properties →
      ∃ word atom, .word word ∈ entryLexemes entries ∧ Atom.ofWord? word = some atom ∧
        atom.text? = some key
  | _, _, .nil, member => by cases member
  | _, _, .cons accepted text _ rest, member => by
      rcases List.mem_cons.mp member with rfl | member
      · exact ⟨_, _, List.mem_cons_self, accepted, text⟩
      · rcases exists_word_of_mem_keys rest member with ⟨word, atom, inside, accepted, text⟩
        exact ⟨word, atom, List.mem_cons_of_mem _ (List.mem_append_right _ inside), accepted, text⟩

/-- A key of an object literal is read from a word that a bracket comes after. -/
theorem Derives.exists_word_of_object {limit : Nat} {tree : Tree} {spread : Option Expr}
    {properties : List (String × Expr)} (derived : Derives limit tree (.object spread properties))
    {key : String} (member : key ∈ Table.keys properties) :
    ∃ word atom, .word word ∈ tree.lexemes.dropLast ∧ Atom.ofWord? word = some atom ∧
      atom.text? = some key := by
  cases derived with
  | object plain derived =>
      rw [Table.keys_ofList, List.mem_eraseDups] at member
      rcases exists_word_of_mem_keys derived member with ⟨word, atom, inside, accepted, text⟩
      refine ⟨word, atom, ?_, accepted, text⟩
      rw [lexemes, ← List.cons_append, List.dropLast_concat]
      exact List.mem_cons_of_mem _ inside
  | extension extended derived =>
      rw [Table.keys_ofList, List.mem_eraseDups] at member
      rcases exists_word_of_mem_keys derived member with ⟨word, atom, inside, accepted, text⟩
      refine ⟨word, atom, ?_, accepted, text⟩
      rw [lexemes, ← List.append_assoc, ← List.cons_append, ← List.cons_append,
        List.dropLast_concat]
      exact List.mem_cons_of_mem _ (List.mem_cons_of_mem _ (List.mem_append_right _ inside))

/-- The first key of an object literal is read from its first word. -/
theorem Derives.head_of_object {limit : Nat} {tree : Tree} {spread : Option Expr} {key : String}
    {value : Expr} {properties : List (String × Expr)}
    (derived : Derives limit tree (.object spread ((key, value) :: properties))) :
    ∃ word rest, tree.lexemes = .opening .curly :: .word word :: rest ∧
      (word = Expr.spreadWord ∨
        ∃ atom, Atom.ofWord? word = some atom ∧ atom.text? = some key) := by
  generalize same : (key, value) :: properties = table at derived
  cases derived with
  | object plain derived =>
      have keys := congrArg Table.keys same
      rw [Table.keys_ofList] at keys
      cases derived with
      | nil => cases keys
      | cons accepted text first rest =>
          simp only [Table.keys, List.map_cons, List.eraseDups_cons, List.cons.injEq] at keys
          rw [lexemes, entryLexemes, List.cons_append]
          exact ⟨_, _, rfl, .inr ⟨_, accepted, keys.1 ▸ text⟩⟩
  | extension extended derived =>
      rw [lexemes]
      exact ⟨_, _, rfl, .inl rfl⟩

end Tree

namespace Expr

theorem exists_tree_of_parse {limit : Nat} {source : String} {expr : Expr}
    (parsed : parse limit source = .ok [expr]) :
    ∃ tree, tree.lexemes = Lexeme.scan source ∧ Tree.Derives limit tree expr := by
  rcases parse_eq_ok_iff.mp parsed with ⟨trees, lexemes, derived⟩
  cases derived with
  | cons first rest =>
      cases rest
      rw [Tree.rowLexemes, Tree.rowLexemes, List.append_nil] at lexemes
      exact ⟨_, lexemes, first⟩

theorem parse_property {word key : String} {atom : Atom} (spells : Spells word [.word word])
    (plain : word ≠ spreadWord) (accepted : Atom.ofWord? word = some atom)
    (text : atom.text? = some key) :
    parse 1 ("\x7b" ++ (word ++ " " ++ "x") ++ "\x7d") =
      .ok [.object none [(key, .atom (.symbol "x"))]] := by
  have value : Spells "x" [.word "x"] := .of_ofChars (by decide) (by decide)
  have whole := (spells.spaced value).bracketed .curly
  have derived : Tree.Derives 1 (.object [(word, .word "x")])
      (.object none (Table.ofList [(key, .atom (.symbol "x"))])) :=
    .object (by simpa [Tree.entryLexemes] using plain) (.cons accepted text (.word rfl) .nil)
  refine parse_eq_of_derives (whole.scanned.trans ?_) derived
  simp only [Tree.lexemes, Tree.entryLexemes]
  rfl

theorem renderKey_of_marked {key : String} (marked : '"' ∈ key.toList) :
    renderKey key = "\"" ++ key ++ "\"" := by
  rw [renderKey, if_neg]
  intro plain
  exact (not_special_of_isPlainKey plain '"' marked).1 rfl

/-- The word at the place of a key with quotation marks is not read as that key. -/
theorem text?_ne_of_marked {key tail word : String} {atom : Atom} (marked : '"' ∈ key.toList)
    (first : (Lexeme.scan (renderKey key ++ tail)).head? = some (.word word))
    (accepted : Atom.ofWord? word = some atom) : atom.text? ≠ some key := by
  intro text
  rw [renderKey_of_marked marked] at first
  rcases Lexeme.exists_head?_scan_marked key tail with ⟨front, head, different⟩
  rw [head, Option.some.injEq, Lexeme.word.injEq] at first
  exact different (first.trans (Atom.eq_of_text?_marked accepted text marked).1)

theorem exists_intercalate_cons (front back : String) (texts : List String) :
    ∃ tail, " ".intercalate ((front ++ " " ++ back) :: texts) = front ++ tail := by
  cases texts with
  | nil =>
      rw [String.intercalate_singleton, String.append_assoc]
      exact ⟨_, rfl⟩
  | cons next rest =>
      rw [String.intercalate_cons_cons, String.append_assoc, String.append_assoc,
        String.append_assoc]
      exact ⟨_, rfl⟩

theorem scan_render_object (key : String) (value : Expr) (properties : List (String × Expr)) :
    ∃ tail, Lexeme.scan (render (.object none ((key, value) :: properties))) =
      .opening .curly :: Lexeme.scan (renderKey key ++ tail) := by
  have opened : Spells "\x7b" [.opening .curly] := .of_ofChars (by decide) (by decide)
  have between : (Scan.start.read "\x7b".toList).current = none := by decide
  rcases exists_intercalate_cons (renderKey key) value.render (renderProperties properties) with
    ⟨tail, text⟩
  refine ⟨tail ++ "\x7d", ?_⟩
  rw [render, renderSpread, List.nil_append, renderProperties, text, String.append_assoc,
    String.append_assoc, Lexeme.scan_append_of_current_eq_none between, opened.scanned]
  rfl

/-- An object literal whose first key has quotation marks is not read back with that key. -/
theorem parse_render_ne_of_marked {key : String} (marked : '"' ∈ key.toList) (limit : Nat)
    (value other : Expr) (properties others : List (String × Expr)) (spread : Option Expr) :
    parse limit (render (.object none ((key, value) :: properties))) ≠
      .ok [.object spread ((key, other) :: others)] := by
  intro accepted
  rcases exists_tree_of_parse accepted with ⟨tree, lexemes, derived⟩
  rcases derived.head_of_object with ⟨word, rest, starts, named⟩
  rcases scan_render_object key value properties with ⟨tail, scanned⟩
  rw [scanned, starts, List.cons.injEq] at lexemes
  have first : (Lexeme.scan (renderKey key ++ tail)).head? = some (.word word) := by
    rw [← lexemes.2]
    rfl
  rcases named with rfl | ⟨atom, accepted, text⟩
  · rw [renderKey_of_marked marked] at first
    rcases Lexeme.exists_head?_scan_marked key tail with ⟨front, head, _⟩
    rw [head, Option.some.injEq, Lexeme.word.injEq] at first
    have chars := congrArg String.toList first
    rw [String.toList_ofList] at chars
    cases chars
  · exact text?_ne_of_marked marked first accepted text

/-- A key with quotation marks in it is accepted exactly if it is a word. -/
theorem accepted_key_iff {key : String} :
    (∃ limit source spread properties,
        parse limit source = .ok [.object spread properties] ∧ key ∈ Table.keys properties) ↔
      '"' ∉ key.toList ∨ Spells key [.word key] ∧ Atom.ofWord? key = some (.symbol key) := by
  constructor
  · rintro ⟨limit, source, spread, properties, accepted, member⟩
    by_cases marked : '"' ∈ key.toList
    · rcases exists_tree_of_parse accepted with ⟨tree, lexemes, derived⟩
      rcases derived.exists_word_of_object member with ⟨word, atom, inside, accepted, text⟩
      rcases Atom.eq_of_text?_marked accepted text marked with ⟨rfl, rfl⟩
      rw [lexemes] at inside
      exact .inr ⟨Lexeme.spells_of_mem_dropLast_scan inside, accepted⟩
    · exact .inl marked
  · intro readable
    by_cases marked : '"' ∈ key.toList
    · rcases readable.resolve_left (not_not_intro marked) with ⟨spells, accepted⟩
      have plain : key ≠ spreadWord := by
        rintro rfl
        revert marked
        decide
      exact ⟨_, _, _, _, parse_property spells plain accepted rfl, List.mem_singleton_self key⟩
    · rcases ofWord?_renderKey marked with ⟨atom, accepted, text⟩
      exact ⟨_, _, _, _, parse_property (spells_renderKey marked) (renderKey_ne_spreadWord key)
        accepted text, List.mem_singleton_self key⟩

/-- A key is written as one word that is read as the key, and not as the sign of an extension, if
and only if it has no quotation mark in it. Keys with quotation marks are accepted if they are
words. But where such a key is written, the first word has another text, whatever follows, and an
object literal that starts with the key is not read back as one that does. -/
theorem renderKey_reads_back_iff (key : String) :
    ((∃ word atom, Lexeme.scan (renderKey key) = [.word word] ∧ Atom.ofWord? word = some atom ∧
        atom.text? = some key ∧ word ≠ spreadWord) ↔ '"' ∉ key.toList) ∧
    ((∃ limit source spread properties, parse limit source = .ok [.object spread properties] ∧
        key ∈ Table.keys properties) ↔
      '"' ∉ key.toList ∨ Spells key [.word key] ∧ Atom.ofWord? key = some (.symbol key)) ∧
    ('"' ∈ key.toList →
      (∀ tail word atom, (Lexeme.scan (renderKey key ++ tail)).head? = some (.word word) →
        Atom.ofWord? word = some atom → atom.text? ≠ some key) ∧
      ∀ limit value properties spread other others,
        parse limit (render (.object none ((key, value) :: properties))) ≠
          .ok [.object spread ((key, other) :: others)]) := by
  refine ⟨⟨?_, ?_⟩, accepted_key_iff, ?_⟩
  · rintro ⟨word, atom, scanned, accepted, text, _⟩ marked
    have first : (Lexeme.scan (renderKey key ++ "")).head? = some (.word word) := by
      rw [String.append_empty, scanned]
      rfl
    exact text?_ne_of_marked marked first accepted text
  · intro unmarked
    rcases ofWord?_renderKey unmarked with ⟨atom, accepted, text⟩
    exact ⟨renderKey key, atom, (spells_renderKey unmarked).scanned, accepted, text,
      renderKey_ne_spreadWord key⟩
  · intro marked
    refine ⟨?_, ?_⟩
    · intro tail word atom first accepted
      exact text?_ne_of_marked marked first accepted
    · intro limit value properties spread other others
      exact parse_render_ne_of_marked marked limit value other properties others spread

/-- The key is accepted, and its text is one word, but that word is a longer key. -/
theorem renderKey_reads_back_iff_glued :
    let key := "a\"b\""
    '"' ∈ key.toList ∧
      parse 1 "\x7ba\"b\" x\x7d" = .ok [.object none [(key, .atom (.symbol "x"))]] ∧
      render (.object none [(key, .atom (.symbol "x"))]) = "\x7b\"a\"b\"\" x\x7d" ∧
      parse 1 "\x7b\"a\"b\"\" x\x7d" ≠ .ok [.object none [(key, .atom (.symbol "x"))]] := by
  have marked : '"' ∈ "a\"b\"".toList := by decide
  have spells : Spells "a\"b\"" [.word "a\"b\""] :=
    .of_ofChars (by decide) (by decide)
  have written : render (.object none [("a\"b\"", .atom (.symbol "x"))]) =
      "\x7b\"a\"b\"\" x\x7d" := by
    decide
  have parsed := parse_property spells (by decide) rfl rfl
  refine ⟨marked, parsed, written, ?_⟩
  rw [← written]
  exact ((renderKey_reads_back_iff "a\"b\"").2.2 marked).2 _ _ _ _ _ _

end Expr

end RuleLisp
