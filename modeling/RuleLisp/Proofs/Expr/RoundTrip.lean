import RuleLisp.Proofs.Expr
import RuleLisp.Proofs.Grammar.Reader

/-! # Reading a written expression

An expression that was read from a source is written as a text that is read as the same expression,
except that an infinite number comes back as the symbol it is written as. The text is written by
other words than the source was, so a tree for it is built next to the tree of the source.
-/

namespace RuleLisp

namespace Expr

/-! ## Keys -/

theorem isSpecial_eq_false_iff {char : Char} :
    isSpecial char = false ↔
      char ≠ '"' ∧ Lexeme.bracket? char = none ∧ Text.isBlank char = false := by
  simp only [isSpecial, Lexeme.bracket?, Bool.or_eq_false_iff, decide_eq_false_iff_not]
  grind

theorem not_special_of_isPlainKey {key : String} (plain : isPlainKey key = true) :
    ∀ char ∈ key.toList,
      char ≠ '"' ∧ Lexeme.bracket? char = none ∧ Text.isBlank char = false := by
  intro char member
  apply isSpecial_eq_false_iff.mp
  simp only [isPlainKey, Bool.and_eq_true, Bool.not_eq_true', List.any_eq_false] at plain
  exact Bool.eq_false_iff.mpr (plain.2 char member)

theorem spells_renderKey {key : String} (unmarked : '"' ∉ key.toList) :
    Spells (renderKey key) [.word (renderKey key)] := by
  unfold renderKey
  split
  · next plain =>
      apply Spells.plain
      · rintro rfl
        cases plain
      · exact not_special_of_isPlainKey plain
  · exact Spells.quoted unmarked

theorem ofWord?_renderKey {key : String} (unmarked : '"' ∉ key.toList) :
    ∃ atom, Atom.ofWord? (renderKey key) = some atom ∧ atom.text? = some key := by
  unfold renderKey
  split
  · next plain =>
      have bare : key.toList.head? ≠ some '"' := by
        intro starts
        exact unmarked (List.mem_of_mem_head? starts)
      simp only [isPlainKey, reservedWords, Bool.and_eq_true, Bool.not_eq_true'] at plain
      rcases plain with ⟨⟨⟨_, notReserved⟩, notNumeric⟩, _⟩
      have unread : Number.Literal.read? key.toList = none := by
        simpa [Number.isNumeric] using notNumeric
      simp only [List.contains_eq_mem, List.mem_cons, not_or, decide_eq_false_iff_not]
        at notReserved
      rcases notReserved with ⟨notTrue, notFalse, notNull, _⟩
      refine ⟨.symbol key, ?_, rfl⟩
      rw [Atom.ofWord?_of_not_read? notTrue notFalse notNull unread, Atom.ofText?_of_head?_ne bare]
  · exact ⟨.string key, Atom.ofWord?_quoted unmarked, rfl⟩

theorem renderKey_ne_spreadWord (key : String) : renderKey key ≠ spreadWord := by
  unfold renderKey
  split
  · next plain =>
      rintro rfl
      revert plain
      decide
  · intro same
    have chars := congrArg String.toList same
    simp [spreadWord] at chars

end Expr

namespace Tree

/-! ## Trees of written expressions -/

/-- A tree for the text of an expression, with names for the infinite numbers in it. -/
structure Prints (limit : Nat) (expr : Expr) (printed : Tree) : Prop where
  spells : Spells expr.render printed.lexemes
  derived : Derives limit printed (expr.mapAtoms Atom.nameInfinite)

structure PrintsRow (limit : Nat) (exprs : List Expr) (printed : List Tree) : Prop where
  spells : Spells (" ".intercalate (Expr.renderItems exprs)) (rowLexemes printed)
  derived : DerivesRow limit printed (Expr.mapRow Atom.nameInfinite exprs)

structure PrintsEntries (limit : Nat) (properties : List (String × Expr))
    (printed : List (String × Tree)) : Prop where
  spells : Spells (" ".intercalate (Expr.renderProperties properties)) (entryLexemes printed)
  derived : DerivesEntries limit printed (Expr.mapProperties Atom.nameInfinite properties)
  plain : (entryLexemes printed).head? ≠ some (.word Expr.spreadWord)

variable {limit : Nat}

theorem PrintsRow.nil : PrintsRow limit [] [] := by
  refine ⟨?_, ?_⟩
  · simpa [Expr.renderItems, rowLexemes] using Spells.empty
  · exact .nil

theorem PrintsRow.cons {expr : Expr} {exprs : List Expr} {printed : Tree} {others : List Tree}
    (first : Prints limit expr printed) (rest : PrintsRow limit exprs others) :
    PrintsRow limit (expr :: exprs) (printed :: others) := by
  refine ⟨?_, ?_⟩
  · rw [Expr.renderItems, rowLexemes]
    exact first.spells.intercalate_cons rest.spells
  · rw [Expr.mapRow]
    exact .cons first.derived rest.derived

theorem PrintsEntries.nil : PrintsEntries limit [] [] := by
  refine ⟨?_, ?_, ?_⟩
  · simpa [Expr.renderProperties, entryLexemes] using Spells.empty
  · exact .nil
  · simp [entryLexemes]

theorem PrintsEntries.cons {key : String} {value : Expr} {properties : List (String × Expr)}
    {printed : Tree} {others : List (String × Tree)} (unmarked : '"' ∉ key.toList)
    (first : Prints limit value printed) (rest : PrintsEntries limit properties others) :
    PrintsEntries limit ((key, value) :: properties)
      ((Expr.renderKey key, printed) :: others) := by
  refine ⟨?_, ?_, ?_⟩
  · have property := (Expr.spells_renderKey unmarked).spaced first.spells
    rw [Expr.renderProperties, entryLexemes]
    simpa using property.intercalate_cons rest.spells
  · rcases Expr.ofWord?_renderKey unmarked with ⟨atom, accepted, text⟩
    rw [Expr.mapProperties]
    exact .cons accepted text first.derived rest.derived
  · simpa [entryLexemes] using Expr.renderKey_ne_spreadWord key

/-- The properties of an object literal are written one by one. -/
theorem exists_printsEntries {properties : List (String × Expr)}
    (values : ∀ property ∈ properties, ∃ printed, Prints limit property.2 printed)
    (unmarked : ∀ property ∈ properties, '"' ∉ property.1.toList) :
    ∃ printed, PrintsEntries limit properties printed := by
  induction properties with
  | nil => exact ⟨[], .nil⟩
  | cons property rest induction =>
      rw [List.forall_mem_cons] at values unmarked
      rcases values with ⟨⟨printed, first⟩, values⟩
      rcases induction values unmarked.2 with ⟨others, rest⟩
      exact ⟨_, .cons unmarked.1 first rest⟩

theorem Prints.list {items : List Expr} {printed : List Tree}
    (plain : (rowLexemes printed).head? ≠ some (.word Expr.functionWord))
    (row : PrintsRow limit items printed) : Prints (limit + 1) (.list items) (.list printed) := by
  refine ⟨?_, ?_⟩
  · rw [Expr.render, lexemes]
    exact row.spells.bracketed .round
  · rw [Expr.mapAtoms]
    exact .list plain row.derived

/-- A row of words is written with a space between any two of them. -/
theorem spells_words {words : List String} (spells : ∀ text ∈ words, Spells text [.word text]) :
    Spells (" ".intercalate words) (words.map .word) := by
  induction words with
  | nil => simpa using Spells.empty
  | cons first rest induction =>
      rw [List.forall_mem_cons] at spells
      exact spells.1.intercalate_cons (induction spells.2)

theorem Prints.function {name : String} {params : List String} {body : Expr} {printed : Tree}
    (plain : name ≠ Expr.functionWord)
    (symbols : ∀ text ∈ name :: params, Atom.ofWord? text = some (.symbol text))
    (spells : ∀ text ∈ name :: params, Spells text [.word text])
    (inner : Prints (limit + 1) body printed) :
    Prints (limit + 2) (.function name params body) (.function name params printed) := by
  refine ⟨?_, ?_⟩
  · have keyword : Spells Expr.functionWord [.word Expr.functionWord] :=
      .of_ofChars (by decide) (by decide)
    have signature := (spells_words spells).bracketed .round
    have whole := ((keyword.spaced signature).spaced inner.spells).bracketed .round
    have text : (Expr.function name params body).render = Shape.round.opener.toString ++
        (Expr.functionWord ++ " " ++ (Shape.round.opener.toString ++
          " ".intercalate (name :: params) ++ Shape.round.closer.toString) ++ " " ++
          body.render) ++ Shape.round.closer.toString := by
      apply String.toList_inj.mp
      simp [Expr.render, Expr.functionWord, Shape.opener, Shape.closer]
    rw [text, lexemes]
    simpa using whole
  · rw [Expr.mapAtoms]
    exact .function plain symbols inner.derived

/-- A table is written again in its own order, since no key comes twice. -/
theorem ofList_mapProperties {table : Table Expr} (distinct : (Table.keys table).Nodup)
    (change : Atom → Atom) :
    Table.ofList (Expr.mapProperties change table) = Expr.mapProperties change table := by
  apply Table.ofList_of_nodup
  rw [Expr.keys_mapProperties]
  exact distinct

theorem Prints.object {table : Table Expr} {printed : List (String × Tree)}
    (distinct : (Table.keys table).Nodup) (entries : PrintsEntries limit table printed) :
    Prints (limit + 1) (.object none table) (.object printed) := by
  refine ⟨?_, ?_⟩
  · rw [Expr.render, lexemes]
    exact entries.spells.bracketed .curly
  · rw [Expr.mapAtoms, ← ofList_mapProperties distinct]
    exact .object entries.plain entries.derived

theorem Prints.extension {base : Expr} {table : Table Expr} {printed : Tree}
    {others : List (String × Tree)} (distinct : (Table.keys table).Nodup)
    (extended : Prints limit base printed) (entries : PrintsEntries limit table others) :
    Prints (limit + 1) (.object (some base) table) (.extension printed others) := by
  refine ⟨?_, ?_⟩
  · have keyword : Spells Expr.spreadWord [.word Expr.spreadWord] :=
      .of_ofChars (by decide) (by decide)
    have spread := keyword.spaced extended.spells
    have whole := (spread.intercalate_cons entries.spells).bracketed .curly
    rw [Expr.render, lexemes]
    simpa [Expr.renderSpread, Expr.spreadWord, Shape.opener, Shape.closer] using whole
  · rw [Expr.mapAtoms, ← ofList_mapProperties distinct]
    exact .extension extended.derived entries.derived

/-! ## From the tree of the source -/

def HasWords (lexemes : List Lexeme) : Prop :=
  ∀ text, .word text ∈ lexemes → Spells text [.word text]

theorem render_ne_functionWord {text : String} {atom : Atom}
    (accepted : Atom.ofWord? text = some atom) (other : text ≠ Expr.functionWord) :
    atom.render ≠ Expr.functionWord := by
  intro same
  have again := Atom.ofWord?_render accepted
  have keyword : Atom.ofWord? Expr.functionWord = some (.symbol Expr.functionWord) := rfl
  rw [same, keyword, Option.some.injEq] at again
  cases atom with
  | symbol name =>
      exact other ((Atom.eq_of_ofWord?_eq_symbol accepted).symm.trans same)
  | number value =>
      rw [Atom.nameInfinite] at again
      split at again
      · split at again <;> simp [Expr.functionWord] at again
      · cases again
  | null | bool | string => cases again

/-- The table that some properties leave is written if each of the properties is. -/
theorem exists_printsTable {limit : Nat} {properties : List (String × Expr)}
    (values : ∀ property ∈ properties, (∀ key ∈ property.2.keys, '"' ∉ key.toList) →
      ∃ printed, Prints limit property.2 printed)
    (unmarked : ∀ key ∈ Expr.propertyKeys (Table.ofList properties), '"' ∉ key.toList) :
    ∃ printed, PrintsEntries limit (Table.ofList properties) printed := by
  apply exists_printsEntries
  · intro property member
    apply values property (Table.mem_of_mem_ofList member)
    intro key inside
    exact unmarked key (Expr.keys_subset_propertyKeys member inside)
  · intro property member
    exact unmarked _ (Expr.key_mem_propertyKeys member)

mutual

/-- An expression that was read from words is written as a text that has a tree. -/
theorem exists_prints : ∀ (tree : Tree) {limit : Nat} {expr : Expr},
    Derives limit tree expr → HasWords tree.lexemes →
    (∀ key ∈ expr.keys, '"' ∉ key.toList) →
    ∃ printed, Prints limit expr printed ∧
      (tree.lexemes.head? ≠ some (.word Expr.functionWord) →
        printed.lexemes.head? ≠ some (.word Expr.functionWord))
  | .word text => by
      intro derived words unmarked
      rcases derived with @⟨_, _, atom, accepted⟩
      refine ⟨.word atom.render, ⟨?_, .word (Atom.ofWord?_render accepted)⟩, ?_⟩
      · rw [Expr.render, lexemes]
        rcases Atom.spells_render_or_eq accepted with spells | same
        · exact spells
        · rw [same]
          exact words text (by simp [lexemes])
      · intro plain
        have other : text ≠ Expr.functionWord := by
          rintro rfl
          exact plain rfl
        simpa [lexemes] using render_ne_functionWord accepted other
  | .list items => by
      intro derived words unmarked
      rcases derived with _ | ⟨plain, derived⟩
      rw [Expr.keys] at unmarked
      have inner : HasWords (rowLexemes items) := by
        intro text member
        exact words text (by simp [lexemes, member])
      rcases exists_printsRow items derived inner unmarked with ⟨printed, row, starts⟩
      exact ⟨.list printed, .list (starts plain) row, by simp [lexemes]⟩
  | .function name params body => by
      intro derived words unmarked
      rcases derived with _ | _ | ⟨plain, symbols, derived⟩
      rw [Expr.keys] at unmarked
      have inner : HasWords body.lexemes := by
        intro text member
        exact words text (by simp [lexemes, member])
      have names : ∀ text ∈ name :: params, Spells text [.word text] := by
        intro text member
        apply words
        rcases List.mem_cons.mp member with rfl | member
        · simp [lexemes]
        · simp [lexemes, member]
      rcases exists_prints body derived inner unmarked with ⟨printed, prints, _⟩
      exact ⟨.function name params printed, .function plain symbols names prints,
        by simp [lexemes]⟩
  | .object entries => by
      intro derived words unmarked
      rcases derived with _ | _ | _ | @⟨limit, _, properties, plain, derived⟩
      rw [Expr.keys, Expr.baseKeys, List.nil_append] at unmarked
      have inner : HasWords (entryLexemes entries) := by
        intro text member
        exact words text (by simp [lexemes, member])
      rcases exists_printsTable (exists_prints_of_mem entries derived inner) unmarked with
        ⟨printed, prints⟩
      exact ⟨.object printed, .object (Table.nodup_keys_ofList properties) prints,
        by simp [lexemes]⟩
  | .extension base entries => by
      intro derived words unmarked
      rcases derived with _ | _ | _ | _ | @⟨limit, _, _, _, properties, extended, derived⟩
      rw [Expr.keys, Expr.baseKeys] at unmarked
      have inner : HasWords (entryLexemes entries) := by
        intro text member
        exact words text (by simp [lexemes, member])
      have innerBase : HasWords base.lexemes := by
        intro text member
        exact words text (by simp [lexemes, member])
      rcases exists_prints base extended innerBase
        (fun key member => unmarked key (List.mem_append_left _ member)) with ⟨first, spread, _⟩
      rcases exists_printsTable (exists_prints_of_mem entries derived inner)
        (fun key member => unmarked key (List.mem_append_right _ member)) with ⟨printed, prints⟩
      exact ⟨.extension first printed,
        .extension (Table.nodup_keys_ofList properties) spread prints, by simp [lexemes]⟩

theorem exists_printsRow : ∀ (trees : List Tree) {limit : Nat} {exprs : List Expr},
    DerivesRow limit trees exprs → HasWords (rowLexemes trees) →
    (∀ key ∈ Expr.rowKeys exprs, '"' ∉ key.toList) →
    ∃ printed, PrintsRow limit exprs printed ∧
      ((rowLexemes trees).head? ≠ some (.word Expr.functionWord) →
        (rowLexemes printed).head? ≠ some (.word Expr.functionWord))
  | [] => by
      intro derived words unmarked
      cases derived
      exact ⟨[], .nil, fun _ => by simp [rowLexemes]⟩
  | tree :: trees => by
      intro derived words unmarked
      rcases derived with _ | ⟨first, derived⟩
      rw [Expr.rowKeys] at unmarked
      rcases exists_prints tree first
        (fun text member => words text (by simp [rowLexemes, member]))
        (fun key member => unmarked key (List.mem_append_left _ member)) with
        ⟨printed, prints, starts⟩
      rcases exists_printsRow trees derived
        (fun text member => words text (by simp [rowLexemes, member]))
        (fun key member => unmarked key (List.mem_append_right _ member)) with
        ⟨others, row, _⟩
      refine ⟨printed :: others, .cons prints row, ?_⟩
      rw [head?_rowLexemes_cons, head?_rowLexemes_cons]
      exact starts

theorem exists_prints_of_mem : ∀ (entries : List (String × Tree)) {limit : Nat}
    {properties : List (String × Expr)}, DerivesEntries limit entries properties →
    HasWords (entryLexemes entries) → ∀ property ∈ properties,
    (∀ key ∈ property.2.keys, '"' ∉ key.toList) → ∃ printed, Prints limit property.2 printed
  | [] => by
      intro derived _ property member
      cases derived
      cases member
  | (_, tree) :: entries => by
      intro derived words property member unmarked
      rcases derived with _ | ⟨_, _, first, derived⟩
      rcases List.mem_cons.mp member with rfl | member
      · rcases exists_prints tree first
          (fun text member => words text (by simp [entryLexemes, member])) unmarked with
          ⟨printed, prints, _⟩
        exact ⟨printed, prints⟩
      · exact exists_prints_of_mem entries derived
          (fun text member => words text (by simp [entryLexemes, member])) property member unmarked

end

/-! ## Words inside brackets -/

theorem rowLexemes_append (trees others : List Tree) :
    rowLexemes (trees ++ others) = rowLexemes trees ++ rowLexemes others := by
  induction trees with
  | nil => simp [rowLexemes]
  | cons tree rest induction => simp [rowLexemes, induction]

theorem exists_lexemes_eq_concat {tree : Tree} (bracketed : ∀ text, tree ≠ .word text) :
    ∃ front shape, tree.lexemes = front ++ [.closing shape] := by
  cases tree with
  | word text => exact absurd rfl (bracketed text)
  | list | function | object | extension =>
      rw [lexemes]
      simp only [← List.cons_append, ← List.append_assoc]
      exact ⟨_, _, rfl⟩

theorem mem_rowLexemes {trees : List Tree} {tree : Tree} (member : tree ∈ trees)
    {lexeme : Lexeme} (inside : lexeme ∈ tree.lexemes) : lexeme ∈ rowLexemes trees := by
  rcases List.append_of_mem member with ⟨before, after, rfl⟩
  simp [rowLexemes_append, rowLexemes, inside]

/-- A word inside brackets is not the last lexeme of a program. -/
theorem mem_dropLast_rowLexemes {trees : List Tree} {tree : Tree} (member : tree ∈ trees)
    (bracketed : ∀ text, tree ≠ .word text) {text : String}
    (inside : .word text ∈ tree.lexemes) : .word text ∈ (rowLexemes trees).dropLast := by
  rcases List.append_of_mem member with ⟨before, after, rfl⟩
  rcases exists_lexemes_eq_concat bracketed with ⟨front, shape, ends⟩
  rw [ends] at inside
  have early : .word text ∈ front := by simpa using inside
  rw [rowLexemes_append, rowLexemes, ends, List.append_assoc front, ← List.append_assoc,
    List.dropLast_append_of_ne_nil (by simp)]
  apply List.mem_append_left
  exact List.mem_append_right _ early

theorem DerivesRow.exists_of_mem {limit : Nat} {trees : List Tree} {exprs : List Expr}
    (derived : DerivesRow limit trees exprs) {expr : Expr} (member : expr ∈ exprs) :
    ∃ tree ∈ trees, Derives limit tree expr := by
  induction exprs generalizing trees with
  | nil => cases member
  | cons head tail induction =>
      rcases derived with _ | ⟨first, rest⟩
      rcases List.mem_cons.mp member with rfl | member
      · exact ⟨_, List.mem_cons_self, first⟩
      · rcases induction rest member with ⟨tree, among, derived⟩
        exact ⟨tree, List.mem_cons_of_mem _ among, derived⟩

end Tree

namespace Expr

/-! ## Reading back -/

theorem parse_eq_of_derives {limit : Nat} {source : String} {tree : Tree} {expr : Expr}
    (scanned : Lexeme.scan source = tree.lexemes) (derived : Tree.Derives limit tree expr) :
    parse limit source = .ok [expr] := by
  apply parse_eq_ok_iff.mpr
  exact ⟨[tree], by simp [Tree.rowLexemes, scanned], .cons derived .nil⟩

/-- A word at the top level may end in an open quotation, so it is only read alone. -/
theorem parse_render_word {limit : Nat} {source text : String} {atom : Atom}
    (member : .word text ∈ Lexeme.scan source) (accepted : Atom.ofWord? text = some atom) :
    parse limit atom.render = .ok [.atom atom.nameInfinite] := by
  have scanned : Lexeme.scan atom.render = [.word atom.render] := by
    rcases Atom.spells_render_or_eq accepted with spells | same
    · exact spells.scanned
    · rw [same]
      exact Lexeme.scan_of_mem_scan member
  have derived : Tree.Derives limit (.word atom.render) (.atom atom.nameInfinite) :=
    .word (Atom.ofWord?_render accepted)
  exact parse_eq_of_derives (by rw [scanned, Tree.lexemes]) derived

theorem parse_render_bracketed {limit : Nat} {source : String} {trees : List Tree} {tree : Tree}
    {expr : Expr} (scanned : Tree.rowLexemes trees = Lexeme.scan source) (among : tree ∈ trees)
    (bracketed : ∀ text, tree ≠ .word text) (derived : Tree.Derives limit tree expr)
    (unmarked : ∀ key ∈ expr.keys, '"' ∉ key.toList) :
    parse limit expr.render = .ok [expr.mapAtoms Atom.nameInfinite] := by
  have words : Tree.HasWords tree.lexemes := by
    intro text inside
    apply Lexeme.spells_of_mem_dropLast_scan
    rw [← scanned]
    exact Tree.mem_dropLast_rowLexemes among bracketed inside
  rcases Tree.exists_prints tree derived words unmarked with ⟨printed, prints, _⟩
  exact parse_eq_of_derives prints.spells.scanned prints.derived

/-- What a written expression is read as. -/
theorem parse_render_eq {limit : Nat} {source : String} {exprs : List Expr} {expr : Expr}
    (parsed : parse limit source = .ok exprs) (member : expr ∈ exprs)
    (unmarked : ∀ key ∈ expr.keys, '"' ∉ key.toList) :
    parse limit expr.render = .ok [expr.mapAtoms Atom.nameInfinite] := by
  rcases parse_eq_ok_iff.mp parsed with ⟨trees, scanned, row⟩
  rcases row.exists_of_mem member with ⟨tree, among, derived⟩
  cases tree with
  | word text =>
      rcases derived with ⟨accepted⟩
      have inside : .word text ∈ Lexeme.scan source := by
        rw [← scanned]
        exact Tree.mem_rowLexemes among (by simp [Tree.lexemes])
      rw [render, mapAtoms]
      exact parse_render_word inside accepted
  | list | function | object | extension =>
      refine parse_render_bracketed scanned among ?_ derived unmarked
      intro text same
      cases same

/-- An expression of a source whose keys hold no quotation mark is read back from its text, with
its infinite numbers turned into symbols. So it comes back as it was if and only if it has none. -/
theorem parse_render {limit : Nat} {source : String} {exprs : List Expr} {expr : Expr}
    (parsed : parse limit source = .ok exprs) (member : expr ∈ exprs)
    (unmarked : ∀ key ∈ expr.keys, '"' ∉ key.toList) :
    parse limit expr.render = .ok [expr.mapAtoms Atom.nameInfinite] ∧
      (parse limit expr.render = .ok [expr] ↔ ∀ atom ∈ expr.atoms, atom.isInfinite = false) := by
  have readBack := parse_render_eq parsed member unmarked
  refine ⟨readBack, ?_⟩
  rw [readBack, Except.ok.injEq, List.cons.injEq, mapAtoms_eq_self_iff]
  simp only [and_true, Atom.nameInfinite_eq_self_iff]

theorem parse_render_nested : ∃ expr,
    parse 3 "( f x\"y z\" -0.10 \x7b... g \"true\" 1 k \x7bk 2 k\n3\x7d\x7d)" = .ok [expr] ∧
    (∀ key ∈ expr.keys, '"' ∉ key.toList) ∧
    expr.render = "(f x\"y z\" -0.1 \x7b... g \"true\" 1 k \x7bk 3\x7d\x7d)" ∧
    parse 3 expr.render = .ok [expr] := by
  have checked :
      (match parse 3 "( f x\"y z\" -0.10 \x7b... g \"true\" 1 k \x7bk 2 k\n3\x7d\x7d)" with
      | .ok [expr] => decide ((∀ key ∈ expr.keys, '"' ∉ key.toList) ∧
          expr.render = "(f x\"y z\" -0.1 \x7b... g \"true\" 1 k \x7bk 3\x7d\x7d)" ∧
          ∀ atom ∈ expr.atoms, atom.isInfinite = false)
      | .ok [] | .ok (_ :: _ :: _) | .error _ => false) = true := by
    decide +kernel
  split at checked
  · next expr parsed =>
      rcases of_decide_eq_true checked with ⟨unmarked, text, finite⟩
      rcases parse_render parsed List.mem_cons_self unmarked with ⟨_, same⟩
      exact ⟨expr, parsed, unmarked, text, same.mpr finite⟩
  all_goals cases checked

end Expr

end RuleLisp
