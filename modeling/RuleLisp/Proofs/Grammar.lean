import RuleLisp.Expr.Reader

/-! # The grammar of programs

A *tree* takes a row of lexemes apart: every bracket, word and key has its place in it, and
nothing has been thrown away. The grammar says which trees are allowed and what expression each of
them stands for. Trees remember how a source was written, so two sources with the same expressions
may have different trees, but a row of lexemes has at most one tree that the grammar allows.
-/

namespace RuleLisp

/-- A way to take a row of lexemes apart. -/
inductive Tree where
  | word (text : String)
  | list (items : List Tree)
  | function (name : String) (params : List String) (body : Tree)
  /-- An object literal that extends nothing. Its keys are words as they were written. -/
  | object (entries : List (String × Tree))
  | extension (base : Tree) (entries : List (String × Tree))

namespace Tree

/-! ## Lexemes -/

mutual

def lexemes : Tree → List Lexeme
  | .word text => [.word text]
  | .list items => .opening .round :: (rowLexemes items ++ [.closing .round])
  | .function name params body =>
      .opening .round :: .word Expr.functionWord :: .opening .round ::
        ((name :: params).map Lexeme.word ++
          .closing .round :: (body.lexemes ++ [.closing .round]))
  | .object entries => .opening .curly :: (entryLexemes entries ++ [.closing .curly])
  | .extension base entries =>
      .opening .curly :: .word Expr.spreadWord ::
        (base.lexemes ++ (entryLexemes entries ++ [.closing .curly]))

def rowLexemes : List Tree → List Lexeme
  | [] => []
  | tree :: rest => tree.lexemes ++ rowLexemes rest

def entryLexemes : List (String × Tree) → List Lexeme
  | [] => []
  | (key, tree) :: rest => .word key :: (tree.lexemes ++ entryLexemes rest)

end

/-- A tree starts with a word or an opening bracket. -/
theorem exists_lexemes_eq_cons (tree : Tree) :
    ∃ first rest, tree.lexemes = first :: rest ∧ ∀ shape, first ≠ .closing shape := by
  cases tree <;> simp [lexemes]

theorem head?_lexemes_ne_closing (tree : Tree) (shape : Shape) :
    tree.lexemes.head? ≠ some (.closing shape) := by
  cases tree <;> simp [lexemes]

theorem head?_rowLexemes_cons (tree : Tree) (trees : List Tree) :
    (rowLexemes (tree :: trees)).head? = tree.lexemes.head? := by
  cases tree <;> simp [rowLexemes, lexemes]

@[simp] theorem rowLexemes_words (words : List String) :
    rowLexemes (words.map .word) = words.map .word := by
  induction words with
  | nil => simp [rowLexemes]
  | cons first rest induction => simp [rowLexemes, lexemes, induction]

/-! ## Rules -/

mutual

/-- The rules of the grammar: the tree is allowed, its brackets nest no deeper than the limit, and
it stands for the expression. -/
inductive Derives : Nat → Tree → Expr → Prop
  | word {limit : Nat} {text : String} {atom : Atom} (accepted : Atom.ofWord? text = some atom) :
      Derives limit (.word text) (.atom atom)
  | list {limit : Nat} {items : List Tree} {exprs : List Expr}
      (plain : (rowLexemes items).head? ≠ some (.word Expr.functionWord))
      (derived : DerivesRow limit items exprs) :
      Derives (limit + 1) (.list items) (.list exprs)
  | function {limit : Nat} {name : String} {params : List String} {body : Tree} {expr : Expr}
      (plain : name ≠ Expr.functionWord)
      (symbols : ∀ text ∈ name :: params, Atom.ofWord? text = some (.symbol text))
      (derived : Derives (limit + 1) body expr) :
      Derives (limit + 2) (.function name params body) (.function name params expr)
  | object {limit : Nat} {entries : List (String × Tree)} {properties : List (String × Expr)}
      (plain : (entryLexemes entries).head? ≠ some (.word Expr.spreadWord))
      (derived : DerivesEntries limit entries properties) :
      Derives (limit + 1) (.object entries) (.object none (Table.ofList properties))
  | extension {limit : Nat} {base : Tree} {spread : Expr} {entries : List (String × Tree)}
      {properties : List (String × Expr)} (extended : Derives limit base spread)
      (derived : DerivesEntries limit entries properties) :
      Derives (limit + 1) (.extension base entries)
        (.object (some spread) (Table.ofList properties))

inductive DerivesRow : Nat → List Tree → List Expr → Prop
  | nil {limit : Nat} : DerivesRow limit [] []
  | cons {limit : Nat} {tree : Tree} {expr : Expr} {trees : List Tree} {exprs : List Expr}
      (first : Derives limit tree expr) (rest : DerivesRow limit trees exprs) :
      DerivesRow limit (tree :: trees) (expr :: exprs)

/-- The rules for keys and their values. A key is a word that is written as a text. -/
inductive DerivesEntries : Nat → List (String × Tree) → List (String × Expr) → Prop
  | nil {limit : Nat} : DerivesEntries limit [] []
  | cons {limit : Nat} {word key : String} {atom : Atom} {tree : Tree} {expr : Expr}
      {entries : List (String × Tree)} {properties : List (String × Expr)}
      (accepted : Atom.ofWord? word = some atom) (text : atom.text? = some key)
      (first : Derives limit tree expr) (rest : DerivesEntries limit entries properties) :
      DerivesEntries limit ((word, tree) :: entries) ((key, expr) :: properties)

end

structure DerivesProgram (limit : Nat) (lexemes : List Lexeme) (trees : List Tree)
    (exprs : List Expr) : Prop where
  lexemes_eq : rowLexemes trees = lexemes
  derived : DerivesRow limit trees exprs

/-! ## Unique derivations

Trees are told apart by their first lexemes, and a row of them by the bracket that closes it. -/

theorem words_append_inj {shape : Shape} {after otherAfter : List Lexeme} :
    ∀ {words others : List String},
      words.map Lexeme.word ++ .closing shape :: after =
        others.map Lexeme.word ++ .closing shape :: otherAfter →
      words = others ∧ after = otherAfter
  | [], [], equal => by simpa using equal
  | [], _ :: _, equal => by simp at equal
  | _ :: _, [], equal => by simp at equal
  | first :: words, other :: others, equal => by
      simp only [List.map_cons, List.cons_append, List.cons.injEq, Lexeme.word.injEq] at equal
      rcases words_append_inj equal.2 with ⟨rfl, sameAfter⟩
      exact ⟨by rw [equal.1], sameAfter⟩

/-- If a closed row starts with a lexeme that the row itself does not start with, then the row is
empty. -/
theorem eq_closing_of_append_eq_cons {row after rest : List Lexeme} {first : Lexeme}
    {shape : Shape} (plain : row.head? ≠ some first)
    (equal : row ++ .closing shape :: after = first :: rest) : first = .closing shape := by
  cases row with
  | nil => exact (List.cons.inj equal).1.symm
  | cons head tail => exact absurd (congrArg some (List.cons.inj equal).1) plain

mutual

/-- A row of lexemes starts with at most one tree. -/
theorem lexemes_append_inj : ∀ (tree : Tree) {other : Tree} {limit otherLimit : Nat}
    {expr otherExpr : Expr} {after otherAfter : List Lexeme},
    Derives limit tree expr → Derives otherLimit other otherExpr →
    tree.lexemes ++ after = other.lexemes ++ otherAfter → tree = other ∧ after = otherAfter
  | .word text => by
      intro _ otherDerived equal
      cases otherDerived <;> simp [lexemes] at equal
      exact ⟨by rw [equal.1], equal.2⟩
  | .list items => by
      intro derived otherDerived equal
      rcases derived with _ | ⟨plain, derived⟩
      cases otherDerived <;> simp [lexemes] at equal
      case list _ otherDerived =>
          rcases rowLexemes_append_inj items derived otherDerived equal with ⟨rfl, sameAfter⟩
          exact ⟨rfl, sameAfter⟩
      case function =>
          cases eq_closing_of_append_eq_cons plain equal
  | .function name params body => by
      intro derived otherDerived equal
      rcases derived with _ | _ | ⟨plain, symbols, derived⟩
      cases otherDerived <;> simp [lexemes] at equal
      case list otherPlain _ =>
          cases eq_closing_of_append_eq_cons otherPlain equal.symm
      case function otherDerived =>
          rcases equal with ⟨rfl, equal⟩
          rcases words_append_inj equal with ⟨rfl, sameBody⟩
          rcases lexemes_append_inj body derived otherDerived sameBody with ⟨rfl, sameAfter⟩
          exact ⟨rfl, (List.cons.inj sameAfter).2⟩
  | .object entries => by
      intro derived otherDerived equal
      rcases derived with _ | _ | _ | ⟨plain, derived⟩
      cases otherDerived <;> simp [lexemes] at equal
      case object _ otherDerived =>
          rcases entryLexemes_append_inj entries derived otherDerived equal with ⟨rfl, sameAfter⟩
          exact ⟨rfl, sameAfter⟩
      case extension =>
          cases eq_closing_of_append_eq_cons plain equal
  | .extension base entries => by
      intro derived otherDerived equal
      rcases derived with _ | _ | _ | _ | ⟨extended, derived⟩
      cases otherDerived <;> simp [lexemes] at equal
      case object otherPlain _ =>
          cases eq_closing_of_append_eq_cons otherPlain equal.symm
      case extension otherExtended otherDerived =>
          rcases lexemes_append_inj base extended otherExtended equal with ⟨rfl, sameRest⟩
          rcases entryLexemes_append_inj entries derived otherDerived sameRest with ⟨rfl, sameAfter⟩
          exact ⟨rfl, sameAfter⟩

theorem rowLexemes_append_inj : ∀ (trees : List Tree) {others : List Tree}
    {limit otherLimit : Nat} {exprs otherExprs : List Expr} {shape : Shape}
    {after otherAfter : List Lexeme},
    DerivesRow limit trees exprs → DerivesRow otherLimit others otherExprs →
    rowLexemes trees ++ .closing shape :: after =
      rowLexemes others ++ .closing shape :: otherAfter →
    trees = others ∧ after = otherAfter
  | [] => by
      intro _ otherDerived equal
      cases otherDerived with
      | nil => simpa [rowLexemes] using equal
      | @cons _ other _ _ _ _ _ =>
          rcases other.exists_lexemes_eq_cons with ⟨first, rest, starts, notClosing⟩
          simp only [rowLexemes, starts, List.nil_append, List.cons_append, List.cons.injEq]
            at equal
          exact absurd equal.1.symm (notClosing _)
  | tree :: trees => by
      intro derived otherDerived equal
      rcases derived with _ | ⟨first, derived⟩
      cases otherDerived with
      | nil =>
          rcases tree.exists_lexemes_eq_cons with ⟨first, rest, starts, notClosing⟩
          simp only [rowLexemes, starts, List.nil_append, List.cons_append, List.cons.injEq]
            at equal
          exact absurd equal.1 (notClosing _)
      | cons otherFirst otherDerived =>
          simp only [rowLexemes, List.append_assoc] at equal
          rcases lexemes_append_inj tree first otherFirst equal with ⟨rfl, sameRest⟩
          rcases rowLexemes_append_inj trees derived otherDerived sameRest with ⟨rfl, sameAfter⟩
          exact ⟨rfl, sameAfter⟩

theorem entryLexemes_append_inj : ∀ (entries : List (String × Tree))
    {others : List (String × Tree)} {limit otherLimit : Nat}
    {properties otherProperties : List (String × Expr)} {shape : Shape}
    {after otherAfter : List Lexeme},
    DerivesEntries limit entries properties → DerivesEntries otherLimit others otherProperties →
    entryLexemes entries ++ .closing shape :: after =
      entryLexemes others ++ .closing shape :: otherAfter →
    entries = others ∧ after = otherAfter
  | [] => by
      intro _ otherDerived equal
      cases otherDerived <;> simp [entryLexemes] at equal
      exact ⟨rfl, equal⟩
  | (key, tree) :: entries => by
      intro derived otherDerived equal
      rcases derived with _ | ⟨_, _, first, derived⟩
      cases otherDerived with
      | nil => simp [entryLexemes] at equal
      | cons _ _ otherFirst otherDerived =>
          simp only [entryLexemes, List.cons_append, List.append_assoc, List.cons.injEq,
            Lexeme.word.injEq] at equal
          rcases equal with ⟨rfl, equal⟩
          rcases lexemes_append_inj tree first otherFirst equal with ⟨rfl, sameRest⟩
          rcases entryLexemes_append_inj entries derived otherDerived sameRest with ⟨rfl, sameAfter⟩
          exact ⟨rfl, sameAfter⟩

end

/-- A program has at most one row of trees. -/
theorem DerivesProgram.trees_unique {limit otherLimit : Nat} {lexemes : List Lexeme}
    {trees others : List Tree} {exprs otherExprs : List Expr}
    (derives : DerivesProgram limit lexemes trees exprs)
    (otherDerives : DerivesProgram otherLimit lexemes others otherExprs) : trees = others := by
  have same : rowLexemes trees ++ [.closing .round] = rowLexemes others ++ [.closing .round] := by
    rw [derives.lexemes_eq, otherDerives.lexemes_eq]
  exact (rowLexemes_append_inj trees derives.derived otherDerives.derived same).1

end Tree

end RuleLisp
