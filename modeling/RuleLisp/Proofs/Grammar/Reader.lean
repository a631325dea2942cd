import RuleLisp.Proofs.Atom
import RuleLisp.Proofs.Grammar

/-! # Reading follows the grammar

The reader works through the tokens with a stack of open brackets. What it accepts is exactly what
the grammar derives. The link is `Completes`, which says what is still missing inside the innermost
open bracket.
-/

namespace RuleLisp

/-! ## Signatures -/

theorem Expr.symbol?_eq_some_iff {expr : Expr} {name : String} :
    expr.symbol? = some name ↔ expr = .atom (.symbol name) := by
  rcases expr with (_ | _ | _ | _ | _) | _ | _ | _ <;> simp [symbol?, Atom.symbol?]

theorem ReadStep.signatureNames_eq_ok_iff {items : List Expr} {names : List String} :
    signatureNames items = .ok names ↔ items = names.map fun name => .atom (.symbol name) := by
  induction items generalizing names with
  | nil => cases names <;> simp [signatureNames]
  | cons item rest induction =>
      constructor
      · intro read
        unfold signatureNames at read
        split at read
        · cases read
        · next name found =>
            split at read
            · cases read
            · next others readOthers =>
                cases read
                rw [Expr.symbol?_eq_some_iff.mp found, induction.mp readOthers]
                rfl
      · intro equal
        cases names with
        | nil => cases equal
        | cons name names =>
            rcases List.cons.inj equal with ⟨rfl, sameRest⟩
            simp [signatureNames, Expr.symbol?, Atom.symbol?, induction.mpr sameRest]

namespace Tree

theorem DerivesRow.symbols {limit : Nat} {trees : List Tree} {names : List String}
    (derived : DerivesRow limit trees (names.map fun name => .atom (.symbol name))) :
    trees = names.map .word ∧ ∀ name ∈ names, Atom.ofWord? name = some (.symbol name) := by
  induction names generalizing trees with
  | nil =>
      cases derived
      simp
  | cons name names induction =>
      rcases derived with _ | ⟨⟨accepted⟩, rest⟩
      rcases induction rest with ⟨rfl, symbols⟩
      have same := Atom.eq_of_ofWord?_eq_symbol accepted
      subst same
      exact ⟨rfl, List.forall_mem_cons.mpr ⟨accepted, symbols⟩⟩

theorem derivesRow_symbols {limit : Nat} {names : List String}
    (symbols : ∀ name ∈ names, Atom.ofWord? name = some (.symbol name)) :
    DerivesRow limit (names.map .word) (names.map fun name => .atom (.symbol name)) := by
  induction names with
  | nil => exact .nil
  | cons name names induction =>
      rw [List.forall_mem_cons] at symbols
      exact .cons (.word symbols.1) (induction symbols.2)

end Tree

/-! ## What is missing inside a bracket -/

open RuleLisp.Tree in
/-- The lexemes that complete a bracket, and the expression that they make of it. The limit is what
is left of the nesting inside the bracket. -/
inductive Completes : Nat → Inside → List Lexeme → Expr → Prop
  | list {limit : Nat} {opened : Span} {items exprs : List Expr} {trees : List Tree}
      (plain : items = [] → (rowLexemes trees).head? ≠ some (.word Expr.functionWord))
      (derived : DerivesRow limit trees exprs) :
      Completes limit (.list opened items) (rowLexemes trees ++ [.closing .round])
        (.list (items.reverse ++ exprs))
  | function {limit : Nat} {opened : Span} {missing : List Lexeme} {expr : Expr}
      (rest : Completes limit (.definition opened) missing expr) :
      Completes limit (.list opened []) (.word Expr.functionWord :: missing) expr
  | definition {limit : Nat} {opened : Span} {name : String} {params : List String}
      {missing : List Lexeme} {expr : Expr} (plain : name ≠ Expr.functionWord)
      (symbols : ∀ text ∈ name :: params, Atom.ofWord? text = some (.symbol text))
      (rest : Completes (limit + 1) (.signed opened name params) missing expr) :
      Completes (limit + 1) (.definition opened)
        (.opening .round :: ((name :: params).map Lexeme.word ++ .closing .round :: missing)) expr
  | signed {limit : Nat} {opened : Span} {name : String} {params : List String} {body : Tree}
      {expr : Expr} (derived : Derives limit body expr) :
      Completes limit (.signed opened name params) (body.lexemes ++ [.closing .round])
        (.function name params expr)
  | defined {limit : Nat} {name : String} {params : List String} {expr : Expr} :
      Completes limit (.defined name params expr) [.closing .round] (.function name params expr)
  | object {limit : Nat} {entries : List (String × Tree)} {properties : List (String × Expr)}
      (plain : (entryLexemes entries).head? ≠ some (.word Expr.spreadWord))
      (derived : DerivesEntries limit entries properties) :
      Completes limit .object (entryLexemes entries ++ [.closing .curly])
        (.object none (Table.ofList properties))
  | spread {limit : Nat} {missing : List Lexeme} {expr : Expr}
      (rest : Completes limit .spreading missing expr) :
      Completes limit .object (.word Expr.spreadWord :: missing) expr
  | spreading {limit : Nat} {base : Tree} {spread : Expr} {missing : List Lexeme} {expr : Expr}
      (extended : Derives limit base spread)
      (rest : Completes limit (.properties (some spread) []) missing expr) :
      Completes limit .spreading (base.lexemes ++ missing) expr
  | properties {limit : Nat} {spread : Option Expr} {table : Table Expr}
      {entries : List (String × Tree)} {properties : List (String × Expr)}
      (derived : DerivesEntries limit entries properties) :
      Completes limit (.properties spread table) (entryLexemes entries ++ [.closing .curly])
        (.object spread (Table.insertAll table properties))
  | keyed {limit : Nat} {spread : Option Expr} {table : Table Expr} {key : String} {value : Tree}
      {expr : Expr} {missing : List Lexeme} {whole : Expr} (derived : Derives limit value expr)
      (rest : Completes limit (.properties spread (Table.insert key expr table)) missing whole) :
      Completes limit (.keyed spread table key) (value.lexemes ++ missing) whole

namespace Expr

def proceed (limit size : Nat) (finished : List Expr) (rest : List Token) :
    ReadStep → Except ParseError (List Expr)
  | .more inside outer => readAllOn limit size (.bracket inside outer) finished rest
  | .done expr => readAllOn limit size .nothing (expr :: finished) rest
  | .wrong error _ => .error error

theorem readAllOn_cons (limit size : Nat) (opened : Open) (finished : List Expr) (token : Token)
    (rest : List Token) :
    readAllOn limit size opened finished (token :: rest) =
      proceed limit size finished rest (ReadStep.next limit opened token) := by
  rw [readAllOn]
  cases ReadStep.next limit opened token <;> rfl

end Expr

/-! ## What is accepted is derived -/

namespace Completes

open RuleLisp.Tree

variable {limit : Nat} {missing : List Lexeme} {expr whole : Expr}

theorem list_nil {opened : Span} {items : List Expr} :
    Completes limit (.list opened items) [.closing .round] (.list items.reverse) := by
  have completes : Completes limit (.list opened items) (rowLexemes [] ++ [.closing .round])
      (.list (items.reverse ++ [])) := .list (fun _ => by simp [rowLexemes]) .nil
  simpa only [rowLexemes, List.nil_append, List.append_nil] using completes

theorem list_cons {opened : Span} {items : List Expr} {tree : Tree}
    (plain : items = [] → tree.lexemes.head? ≠ some (.word Expr.functionWord))
    (first : Derives limit tree expr)
    (rest : Completes limit (.list opened (expr :: items)) missing whole) :
    Completes limit (.list opened items) (tree.lexemes ++ missing) whole := by
  rcases rest with @⟨_, _, _, exprs, trees, _, derived⟩
  rcases tree.exists_lexemes_eq_cons with ⟨lexeme, lexemes, starts, _⟩
  have completes : Completes limit (.list opened items)
      (rowLexemes (tree :: trees) ++ [.closing .round]) (.list (items.reverse ++ expr :: exprs)) :=
    .list (fun empty => by simpa [rowLexemes, starts] using plain empty) (.cons first derived)
  simpa [rowLexemes] using completes

theorem properties_nil {spread : Option Expr} {table : Table Expr} :
    Completes limit (.properties spread table) [.closing .curly] (.object spread table) := by
  have completes : Completes limit (.properties spread table)
      (entryLexemes [] ++ [.closing .curly]) (.object spread (Table.insertAll table [])) :=
    .properties .nil
  simpa only [entryLexemes, List.nil_append, Table.insertAll, List.foldl_nil] using completes

theorem properties_cons {spread : Option Expr} {table : Table Expr} {word key : String}
    {atom : Atom} (accepted : Atom.ofWord? word = some atom) (text : atom.text? = some key)
    (rest : Completes limit (.keyed spread table key) missing whole) :
    Completes limit (.properties spread table) (.word word :: missing) whole := by
  rcases rest with _ | _ | _ | _ | _ | _ | _ | _ | _ | ⟨value, rest⟩
  rcases rest with _ | _ | _ | _ | _ | _ | _ | _ | derived
  simpa only [entryLexemes, List.cons_append, List.append_assoc, Table.insertAll,
    List.foldl_cons] using
      Completes.properties (.cons accepted text value derived)

/-- An object literal whose first word does not extend anything starts with its properties. -/
theorem object_of_properties (plain : missing.head? ≠ some (.word Expr.spreadWord))
    (rest : Completes limit (.properties none []) missing expr) :
    Completes limit .object missing expr := by
  rcases rest with _ | _ | _ | _ | _ | _ | _ | _ | @⟨_, _, _, entries, properties, derived⟩
  refine .object ?_ derived
  cases row : entryLexemes entries <;> simp_all

theorem exists_tree_of_list {opened : Span}
    (completes : Completes limit (.list opened []) missing expr) :
    ∃ tree, tree.lexemes = .opening .round :: missing ∧ Derives (limit + 1) tree expr := by
  cases completes with
  | list plain derived => exact ⟨.list _, rfl, .list (plain rfl) derived⟩
  | function rest =>
      rcases rest with _ | _ | ⟨plain, symbols, rest⟩
      rcases rest with _ | _ | _ | derived
      exact ⟨.function _ _ _, rfl, .function plain symbols derived⟩

theorem exists_tree_of_object (completes : Completes limit .object missing expr) :
    ∃ tree, tree.lexemes = .opening .curly :: missing ∧ Derives (limit + 1) tree expr := by
  cases completes with
  | object plain derived => exact ⟨.object _, rfl, .object plain derived⟩
  | spread rest =>
      rcases rest with _ | _ | _ | _ | _ | _ | _ | ⟨extended, rest⟩
      rcases rest with _ | _ | _ | _ | _ | _ | _ | _ | derived
      exact ⟨.extension _ _, rfl, .extension extended derived⟩

end Completes

namespace Expr

open RuleLisp.Tree

section

variable {limit size budget : Nat} {finished exprs : List Expr} {outer : List Hole}

/-- The tokens begin with what is missing inside a bracket, and what follows them is accepted. -/
def Completed (limit size budget : Nat) (finished exprs : List Expr) (outer : List Hole)
    (inside : Inside) (tokens : List Token) : Prop :=
  ∃ front after expr, tokens = front ++ after ∧
    Completes budget inside (front.map Token.lexeme) expr ∧
    proceed limit size finished after (ReadStep.fill expr outer) = .ok exprs

def CompletesAccepted (limit size : Nat) (tokens : List Token) : Prop :=
  ∀ {budget : Nat} {finished exprs : List Expr} {inside : Inside} {outer : List Hole},
    budget + (outer.length + 1) = limit →
    readAllOn limit size (.bracket inside outer) finished tokens = .ok exprs →
    Completed limit size budget finished exprs outer inside tokens

theorem Completed.last {inside : Inside} {token : Token} {rest : List Token} {lexeme : Lexeme}
    {expr : Expr} (same : token.lexeme = lexeme) (completes : Completes budget inside [lexeme] expr)
    (accepted : proceed limit size finished rest (ReadStep.fill expr outer) = .ok exprs) :
    Completed limit size budget finished exprs outer inside (token :: rest) := by
  subst same
  exact ⟨[token], rest, expr, rfl, completes, accepted⟩

theorem Completed.prepend {inside following : Inside} {rest : List Token} (front : List Token)
    (completed : Completed limit size budget finished exprs outer following rest)
    (extend : ∀ {missing expr}, Completes budget following missing expr →
      Completes budget inside (front.map Token.lexeme ++ missing) expr) :
    Completed limit size budget finished exprs outer inside (front ++ rest) := by
  rcases completed with ⟨next, after, expr, rfl, completes, accepted⟩
  refine ⟨front ++ next, after, expr, (List.append_assoc ..).symm, ?_, accepted⟩
  rw [List.map_append]
  exact extend completes

/-- Where reading goes on from the start of an expression and accepts, the tokens begin with a tree
of the grammar. -/
theorem start_sound {holes : List Hole} {token : Token} {rest : List Token}
    (accepts : CompletesAccepted limit size rest) (fits : budget + holes.length = limit)
    (accepted : proceed limit size finished rest (ReadStep.start limit holes token) = .ok exprs) :
    ∃ tree expr front after, rest = front ++ after ∧
      tree.lexemes = token.lexeme :: front.map Token.lexeme ∧ Derives budget tree expr ∧
      proceed limit size finished after (ReadStep.fill expr holes) = .ok exprs := by
  unfold ReadStep.start at accepted
  split at accepted
  · next shape isOpening =>
      split at accepted
      · cases accepted
      next deeper =>
      obtain ⟨inner, rfl⟩ : ∃ inner, budget = inner + 1 := ⟨budget - 1, by omega⟩
      have fitsInner : inner + (holes.length + 1) = limit := by omega
      cases shape with
      | round =>
          rcases accepts fitsInner accepted with ⟨front, after, expr, same, completes, continues⟩
          rcases completes.exists_tree_of_list with ⟨tree, lexemes, derived⟩
          exact ⟨tree, expr, front, after, same, isOpening ▸ lexemes, derived, continues⟩
      | curly =>
          rcases accepts fitsInner accepted with ⟨front, after, expr, same, completes, continues⟩
          rcases completes.exists_tree_of_object with ⟨tree, lexemes, derived⟩
          exact ⟨tree, expr, front, after, same, isOpening ▸ lexemes, derived, continues⟩
  · cases accepted
  · next word isWord =>
      split at accepted
      · next atom read =>
          exact ⟨.word word, .atom atom, [], rest, rfl, by rw [isWord]; rfl, .word read, accepted⟩
      · cases accepted

/-! Inside a bracket, one token is read and the rest is known to be read as it should. -/

variable {token : Token} {rest : List Token}

/-- Reading an expression into a hole that takes any expression. -/
theorem Completed.of_start {hole : Hole} {inside : Inside} {filled : Expr → Inside}
    (accepts : ∀ tokens, tokens.length ≤ rest.length → CompletesAccepted limit size tokens)
    (fits : budget + (outer.length + 1) = limit)
    (fills : ∀ expr, ReadStep.fill expr (hole :: outer) = .more (filled expr) outer)
    (extend : ∀ {tree expr missing whole}, tree.lexemes.head? = some token.lexeme →
      Derives budget tree expr → Completes budget (filled expr) missing whole →
      Completes budget inside (tree.lexemes ++ missing) whole)
    (accepted : proceed limit size finished rest (ReadStep.start limit (hole :: outer) token) =
      .ok exprs) :
    Completed limit size budget finished exprs outer inside (token :: rest) := by
  rcases start_sound (accepts rest (Nat.le_refl _)) fits accepted with
    ⟨tree, expr, front, after, rfl, lexemes, derived, continues⟩
  rw [fills] at continues
  have completed := accepts after (by simp) fits continues
  refine completed.prepend (token :: front) fun completes => ?_
  rw [List.map_cons, ← lexemes]
  exact extend (by rw [lexemes]; rfl) derived completes

theorem Completed.of_list {opened : Span} {items : List Expr}
    (accepts : ∀ tokens, tokens.length ≤ rest.length → CompletesAccepted limit size tokens)
    (fits : budget + (outer.length + 1) = limit)
    (accepted : proceed limit size finished rest
      (ReadStep.nextInside limit (.list opened items) outer token) = .ok exprs) :
    Completed limit size budget finished exprs outer (.list opened items) (token :: rest) := by
  simp only [ReadStep.nextInside] at accepted
  split at accepted
  · next closes => exact .last closes .list_nil accepted
  split at accepted
  · next isFunction =>
      rcases List.isEmpty_iff.mp isFunction.1 with rfl
      have completed := accepts rest (Nat.le_refl _) fits accepted
      refine completed.prepend [token] fun completes => ?_
      rw [List.map_singleton, isFunction.2]
      exact .function completes
  · next notFunction =>
      refine .of_start accepts fits (fun _ => rfl) (fun starts derived completes => ?_) accepted
      refine .list_cons (fun empty isFunction => ?_) derived completes
      rw [starts] at isFunction
      exact notFunction ⟨by simp [empty], Option.some.inj isFunction⟩

theorem Completed.of_definition {opened : Span}
    (accepts : ∀ tokens, tokens.length ≤ rest.length → CompletesAccepted limit size tokens)
    (fits : budget + (outer.length + 1) = limit)
    (accepted : proceed limit size finished rest
      (ReadStep.nextInside limit (.definition opened) outer token) = .ok exprs) :
    Completed limit size budget finished exprs outer (.definition opened) (token :: rest) := by
  simp only [ReadStep.nextInside] at accepted
  split at accepted
  · next isOpening =>
      rcases start_sound (accepts rest (Nat.le_refl _)) fits accepted with
        ⟨tree, signature, front, after, rfl, lexemes, derived, continues⟩
      simp only [ReadStep.fill, ReadStep.sign] at continues
      split at continues
      · next items =>
          split at continues
          · cases continues
          · cases continues
          · next name params read =>
              rcases ReadStep.signatureNames_eq_ok_iff.mp read with rfl
              rcases derived with _ | ⟨plain, derived⟩
              rcases derived.symbols with ⟨rfl, symbols⟩
              have completed := accepts after (by simp) fits continues
              refine completed.prepend (token :: front) fun completes => ?_
              rw [List.map_cons, ← lexemes]
              have notFunction : name ≠ functionWord := by
                simpa [rowLexemes, Tree.lexemes] using plain
              simpa [rowLexemes, Tree.lexemes] using
                Completes.definition notFunction symbols completes
      · cases continues
  · cases accepted

theorem Completed.of_signed {opened : Span} {name : String} {params : List String}
    (accepts : ∀ tokens, tokens.length ≤ rest.length → CompletesAccepted limit size tokens)
    (fits : budget + (outer.length + 1) = limit)
    (accepted : proceed limit size finished rest
      (ReadStep.nextInside limit (.signed opened name params) outer token) = .ok exprs) :
    Completed limit size budget finished exprs outer (.signed opened name params)
      (token :: rest) := by
  simp only [ReadStep.nextInside] at accepted
  split at accepted
  · cases accepted
  · refine .of_start accepts fits (fun _ => rfl) (fun _ derived completes => ?_) accepted
    rcases completes with _ | _ | _ | _ | _
    exact .signed derived

theorem Completed.of_defined {name : String} {params : List String} {body : Expr}
    (accepted : proceed limit size finished rest
      (ReadStep.nextInside limit (.defined name params body) outer token) = .ok exprs) :
    Completed limit size budget finished exprs outer (.defined name params body)
      (token :: rest) := by
  simp only [ReadStep.nextInside] at accepted
  split at accepted
  · next closes => exact .last closes .defined accepted
  · cases accepted

theorem Completed.of_property {spread : Option Expr} {table : Table Expr}
    (accepts : ∀ tokens, tokens.length ≤ rest.length → CompletesAccepted limit size tokens)
    (fits : budget + (outer.length + 1) = limit)
    (accepted : proceed limit size finished rest
      (ReadStep.property limit spread table outer token) = .ok exprs) :
    Completed limit size budget finished exprs outer (.properties spread table)
      (token :: rest) := by
  simp only [ReadStep.property] at accepted
  split at accepted
  · next closes => exact .last closes .properties_nil accepted
  · rcases start_sound (accepts rest (Nat.le_refl _)) fits accepted with
      ⟨tree, expr, front, after, rfl, lexemes, derived, continues⟩
    simp only [ReadStep.fill] at continues
    split at continues
    · next key text =>
        have completed := accepts after (by simp) fits continues
        cases derived with
        | @word _ word atom read =>
            refine completed.prepend (token :: front) fun completes => ?_
            rw [List.map_cons, ← lexemes]
            exact .properties_cons read text completes
        | _ => cases text
    · cases continues

theorem Completed.of_object
    (accepts : ∀ tokens, tokens.length ≤ rest.length → CompletesAccepted limit size tokens)
    (fits : budget + (outer.length + 1) = limit)
    (accepted : proceed limit size finished rest
      (ReadStep.nextInside limit .object outer token) = .ok exprs) :
    Completed limit size budget finished exprs outer .object (token :: rest) := by
  simp only [ReadStep.nextInside] at accepted
  split at accepted
  · next isSpread =>
      have completed := accepts rest (Nat.le_refl _) fits accepted
      refine completed.prepend [token] fun completes => ?_
      rw [List.map_singleton, isSpread]
      exact .spread completes
  · next notSpread =>
      rcases Completed.of_property accepts fits accepted with
        ⟨front, after, expr, same, completes, continues⟩
      refine ⟨front, after, expr, same, completes.object_of_properties ?_, continues⟩
      cases front with
      | nil => simp
      | cons first front =>
          rcases List.cons.inj same with ⟨rfl, _⟩
          simpa using notSpread

/-- Reading on inside a bracket accepts only tokens that complete the bracket. -/
theorem completesAccepted (limit size : Nat) (tokens : List Token) :
    CompletesAccepted limit size tokens := by
  induction count : tokens.length using Nat.strongRecOn generalizing tokens with
  | ind count induction =>
      intro budget finished exprs inside outer fits accepted
      cases tokens with
      | nil => cases accepted
      | cons token rest =>
          have accepts : ∀ tokens, tokens.length ≤ rest.length →
              CompletesAccepted limit size tokens := by
            intro tokens shorter
            exact induction tokens.length (by simp at count; omega) tokens rfl
          rw [readAllOn_cons] at accepted
          cases inside with
          | list opened items => exact .of_list accepts fits accepted
          | definition opened => exact .of_definition accepts fits accepted
          | signed opened name params => exact .of_signed accepts fits accepted
          | defined name params body => exact .of_defined accepted
          | object => exact .of_object accepts fits accepted
          | spreading =>
              exact .of_start accepts fits (fun _ => rfl) (fun _ => .spreading) accepted
          | properties spread table => exact .of_property accepts fits accepted
          | keyed spread table key =>
              exact .of_start accepts fits (fun _ => rfl) (fun _ => .keyed) accepted

/-- Whatever is read to the end after some finished expressions is a row of trees. -/
theorem readAllOn_sound {limit size : Nat} {finished exprs : List Expr} (tokens : List Token)
    (accepted : readAllOn limit size .nothing finished tokens = .ok exprs) :
    ∃ trees others, exprs = finished.reverse ++ others ∧
      DerivesProgram limit (tokens.map Token.lexeme) trees others := by
  induction count : tokens.length using Nat.strongRecOn generalizing tokens finished with
  | ind count induction =>
      cases tokens with
      | nil =>
          cases accepted
          exact ⟨[], [], by simp, rfl, .nil⟩
      | cons token rest =>
          rw [readAllOn_cons] at accepted
          rcases start_sound (completesAccepted limit size rest) (Nat.add_zero limit) accepted with
            ⟨tree, expr, front, after, rfl, lexemes, derived, continues⟩
          rcases induction after.length (by simp at count; omega) after continues rfl with
            ⟨trees, others, rfl, lexemesRest, derivedRest⟩
          refine ⟨tree :: trees, expr :: others, by simp, ?_, .cons derived derivedRest⟩
          simp [rowLexemes, lexemes, lexemesRest]

end

/-! ## What is derived is accepted -/

end Expr

namespace Tree.Derives

variable {limit : Nat} {tree : Tree} {expr : Expr} {rest : List Lexeme}

theorem of_word {text : String} (derived : Derives limit tree expr)
    (same : tree.lexemes = .word text :: rest) :
    ∃ atom, Atom.ofWord? text = some atom ∧ expr = .atom atom ∧ rest = [] := by
  cases derived <;> simp [lexemes] at same
  next read =>
    rcases same with ⟨rfl, rfl⟩
    exact ⟨_, read, rfl, rfl⟩

theorem of_list (opened : Span) (derived : Derives limit tree expr)
    (same : tree.lexemes = .opening .round :: rest) :
    ∃ inner, limit = inner + 1 ∧ Completes inner (.list opened []) rest expr := by
  cases derived <;> simp only [lexemes, List.cons.injEq, Lexeme.opening.injEq, reduceCtorEq,
    false_and, true_and] at same
  case list plain derived => exact ⟨_, rfl, same ▸ .list (fun _ => plain) derived⟩
  case function plain symbols derived =>
    exact ⟨_, rfl, same ▸ .function (.definition plain symbols (.signed derived))⟩

theorem of_object (derived : Derives limit tree expr)
    (same : tree.lexemes = .opening .curly :: rest) :
    ∃ inner, limit = inner + 1 ∧ Completes inner .object rest expr := by
  cases derived <;> simp only [lexemes, List.cons.injEq, Lexeme.opening.injEq, reduceCtorEq,
    false_and, true_and] at same
  case object plain derived => exact ⟨_, rfl, same ▸ .object plain derived⟩
  case extension extended derived =>
    exact ⟨_, rfl, same ▸ .spread (.spreading extended (.properties derived))⟩

end Tree.Derives

namespace Expr

open RuleLisp.Tree

section

variable {limit size budget : Nat} {finished : List Expr} {outer : List Hole}
  {after : List Token}

def FillsOuter (limit size : Nat) (front : List Token) : Prop :=
  ∀ {budget : Nat} {finished : List Expr} {inside : Inside} {outer : List Hole} {expr : Expr}
    {after : List Token}, Completes budget inside (front.map Token.lexeme) expr →
    budget + (outer.length + 1) = limit →
    readAllOn limit size (.bracket inside outer) finished (front ++ after) =
      proceed limit size finished after (ReadStep.fill expr outer)

/-- Reading the tokens of a tree fills the innermost hole. -/
theorem start_complete (holes : List Hole) {tree : Tree} {expr : Expr} {token : Token}
    {front : List Token} (fillsOuter : FillsOuter limit size front)
    (derived : Derives budget tree expr) (fits : budget + holes.length = limit)
    (same : tree.lexemes = token.lexeme :: front.map Token.lexeme) :
    proceed limit size finished (front ++ after) (ReadStep.start limit holes token) =
      proceed limit size finished after (ReadStep.fill expr holes) := by
  unfold ReadStep.start
  cases kind : token.lexeme with
  | word text =>
      rw [kind] at same
      rcases derived.of_word same with ⟨atom, read, rfl, empty⟩
      rcases List.map_eq_nil_iff.mp empty with rfl
      simp [read]
  | closing shape =>
      rcases tree.exists_lexemes_eq_cons with ⟨first, rest, starts, notClosing⟩
      rw [starts, kind] at same
      exact absurd (List.cons.inj same).1 (notClosing shape)
  | opening shape =>
      rw [kind] at same
      cases shape with
      | round =>
          rcases derived.of_list token.span same with ⟨inner, rfl, completes⟩
          have deeper : ¬limit ≤ holes.length := by omega
          simp only [deeper, if_false]
          exact fillsOuter completes (by omega)
      | curly =>
          rcases derived.of_object same with ⟨inner, rfl, completes⟩
          have deeper : ¬limit ≤ holes.length := by omega
          simp only [deeper, if_false]
          exact fillsOuter completes (by omega)

/-- Reading the token that closes the innermost bracket. -/
theorem readAllOn_last {inside : Inside} {expr : Expr} {front : List Token} {lexeme : Lexeme}
    (same : front.map Token.lexeme = [lexeme])
    (closes : ∀ token, token.lexeme = lexeme →
      ReadStep.nextInside limit inside outer token = ReadStep.fill expr outer) :
    readAllOn limit size (.bracket inside outer) finished (front ++ after) =
      proceed limit size finished after (ReadStep.fill expr outer) := by
  rcases List.map_eq_singleton_iff.mp same with ⟨token, rfl, isLexeme⟩
  rw [List.singleton_append, readAllOn_cons, ReadStep.next, closes token isLexeme]

/-- Reading a token that leads to another state of the same bracket. -/
theorem readAllOn_first {inside following : Inside} {expr : Expr} {front : List Token}
    {lexeme : Lexeme} {missing : List Lexeme}
    (shorter : ∀ tokens, tokens.length < front.length → FillsOuter limit size tokens)
    (fits : budget + (outer.length + 1) = limit)
    (leads : ∀ token, token.lexeme = lexeme →
      ReadStep.nextInside limit inside outer token = .more following outer)
    (rest : Completes budget following missing expr)
    (same : front.map Token.lexeme = lexeme :: missing) :
    readAllOn limit size (.bracket inside outer) finished (front ++ after) =
      proceed limit size finished after (ReadStep.fill expr outer) := by
  rcases List.map_eq_cons_iff.mp same with ⟨token, front, rfl, isLexeme, rfl⟩
  rw [List.cons_append, readAllOn_cons, ReadStep.next, leads token isLexeme]
  exact shorter front (by simp) rest fits

/-- Reading the tokens of a tree into a hole that takes its expression. -/
theorem readAllOn_tree (hole : Token → Hole) {inside following : Inside} {tree : Tree}
    {expr whole : Expr} {front : List Token} {missing : List Lexeme}
    (shorter : ∀ tokens, tokens.length < front.length → FillsOuter limit size tokens)
    (fits : budget + (outer.length + 1) = limit)
    (starts : ∀ token, tree.lexemes.head? = some token.lexeme →
      ReadStep.nextInside limit inside outer token =
        ReadStep.start limit (hole token :: outer) token)
    (fills : ∀ token, ReadStep.fill expr (hole token :: outer) = .more following outer)
    (derived : Derives budget tree expr) (rest : Completes budget following missing whole)
    (same : front.map Token.lexeme = tree.lexemes ++ missing) :
    readAllOn limit size (.bracket inside outer) finished (front ++ after) =
      proceed limit size finished after (ReadStep.fill whole outer) := by
  rcases List.map_eq_append_iff.mp same with ⟨front, others, rfl, ofTree, rfl⟩
  rcases tree.exists_lexemes_eq_cons with ⟨first, lexemes, begins, _⟩
  rcases List.map_eq_cons_iff.mp (ofTree.trans begins) with ⟨token, front, rfl, isFirst, _⟩
  have head : tree.lexemes.head? = some token.lexeme := by rw [begins, isFirst]; rfl
  have lengths : (token :: front ++ others).length = front.length + 1 + others.length :=
    List.length_append
  rw [List.append_assoc, List.cons_append, readAllOn_cons, ReadStep.next, starts token head,
    start_complete (hole token :: outer) (shorter front (by omega)) derived fits ofTree.symm, fills]
  exact shorter others (by omega) rest fits

/-- Reading the signature of a definition. -/
theorem readAllOn_signature {opened : Span} {name : String} {params : List String} {expr : Expr}
    {front : List Token} {missing : List Lexeme}
    (shorter : ∀ tokens, tokens.length < front.length → FillsOuter limit size tokens)
    (fits : budget + 1 + (outer.length + 1) = limit) (plain : name ≠ functionWord)
    (symbols : ∀ text ∈ name :: params, Atom.ofWord? text = some (.symbol text))
    (rest : Completes (budget + 1) (.signed opened name params) missing expr)
    (same : front.map Token.lexeme = .opening .round ::
      ((name :: params).map Lexeme.word ++ .closing .round :: missing)) :
    readAllOn limit size (.bracket (.definition opened) outer) finished (front ++ after) =
      proceed limit size finished after (ReadStep.fill expr outer) := by
  have signature : Derives (budget + 1) (.list ((name :: params).map .word))
      (.list ((name :: params).map fun name => .atom (.symbol name))) :=
    .list (by simpa [rowLexemes, lexemes] using plain) (derivesRow_symbols symbols)
  have names := ReadStep.signatureNames_eq_ok_iff.mpr (Eq.refl
    ((name :: params).map fun name => Expr.atom (.symbol name)))
  refine readAllOn_tree (fun token => .signature opened token.span) shorter fits
    (fun token starts => ?_) (fun token => ?_) signature rest ?_
  · have isOpening : token.lexeme = .opening .round := by simpa [lexemes] using starts.symm
    simp [ReadStep.nextInside, isOpening]
  · simp only [ReadStep.fill, ReadStep.sign, names]
  · rw [same]
    simp [lexemes, rowLexemes]

/-- Reading the properties of an object literal. -/
theorem readAllOn_properties {spread : Option Expr} {table : Table Expr}
    {entries : List (String × Tree)} {properties : List (String × Expr)} {front : List Token}
    (shorter : ∀ tokens, tokens.length < front.length → FillsOuter limit size tokens)
    (fits : budget + (outer.length + 1) = limit)
    (derived : DerivesEntries budget entries properties)
    (same : front.map Token.lexeme = entryLexemes entries ++ [.closing .curly]) :
    readAllOn limit size (.bracket (.properties spread table) outer) finished (front ++ after) =
      proceed limit size finished after
        (ReadStep.fill (.object spread (Table.insertAll table properties)) outer) := by
  cases derived with
  | nil =>
      exact readAllOn_last same fun token closes => by
        simp [ReadStep.nextInside, ReadStep.property, closes, Table.insertAll]
  | @cons _ word key atom _ expr _ properties accepted text first derived =>
      rw [entryLexemes, List.cons_append, List.append_assoc] at same
      refine readAllOn_first shorter fits (fun token isWord => ?_)
        (.keyed first (.properties derived)) same
      simp [ReadStep.nextInside, ReadStep.property, ReadStep.start, ReadStep.fill, Expr.text?,
        isWord, accepted, text]

theorem fillsOuter (limit size : Nat) (front : List Token) : FillsOuter limit size front := by
  induction count : front.length using Nat.strongRecOn generalizing front with
  | ind count induction =>
      intro budget finished inside outer expr after completes fits
      have shorter : ∀ tokens, tokens.length < front.length → FillsOuter limit size tokens :=
        fun tokens less => induction tokens.length (count ▸ less) tokens rfl
      generalize lexemes : front.map Token.lexeme = missing at completes
      cases completes with
      | @list _ opened items _ _ plain derived =>
          cases derived with
          | nil =>
              rw [List.append_nil]
              exact readAllOn_last lexemes fun token closes => by simp [ReadStep.nextInside, closes]
          | @cons _ tree expr trees exprs first derived =>
              rw [rowLexemes, List.append_assoc] at lexemes
              refine readAllOn_tree (fun _ => .item opened items) shorter fits
                (fun token starts => ?_) (fun _ => rfl) first ?_ lexemes
              · have notClosing := tree.head?_lexemes_ne_closing .round
                simp only [head?_rowLexemes_cons, starts] at plain notClosing
                simp_all [ReadStep.nextInside]
              · have completes : Completes budget (.list opened (expr :: items))
                    (rowLexemes trees ++ [.closing .round])
                    (.list ((expr :: items).reverse ++ exprs)) :=
                  .list (fun empty => by cases empty) derived
                simpa using completes
      | @function _ opened missing _ rest =>
          refine readAllOn_first shorter fits (fun token isFunction => ?_) rest lexemes
          simp [ReadStep.nextInside, isFunction]
      | definition plain symbols rest =>
          exact readAllOn_signature shorter fits plain symbols rest lexemes
      | @signed _ opened name params body _ derived =>
          refine readAllOn_tree (fun _ => .body name params) shorter fits
            (fun token starts => ?_) (fun _ => rfl) derived .defined lexemes
          have notClosing := body.head?_lexemes_ne_closing .round
          simp_all [ReadStep.nextInside]
      | defined =>
          exact readAllOn_last lexemes fun token closes => by simp [ReadStep.nextInside, closes]
      | @object _ entries _ plain derived =>
          rw [Table.ofList, ← readAllOn_properties shorter fits derived lexemes]
          cases front with
          | nil => cases entries <;> simp [entryLexemes] at lexemes
          | cons token front =>
              have notSpread : token.lexeme ≠ .word spreadWord := by
                cases entries <;> simp_all [entryLexemes]
              simp [readAllOn_cons, ReadStep.next, ReadStep.nextInside, notSpread]
      | spread rest =>
          refine readAllOn_first shorter fits (fun token isSpread => ?_) rest lexemes
          simp [ReadStep.nextInside, isSpread]
      | spreading extended rest =>
          exact readAllOn_tree (fun _ => .spread) shorter fits (fun _ _ => rfl) (fun _ => rfl)
            extended rest lexemes
      | properties derived => exact readAllOn_properties shorter fits derived lexemes
      | @keyed _ spread table key _ _ _ _ derived rest =>
          exact readAllOn_tree (fun _ => .value spread table key) shorter fits (fun _ _ => rfl)
            (fun _ => rfl) derived rest lexemes

/-- The tokens of a row of trees are read to the end. -/
theorem readAllOn_complete {trees : List Tree} {exprs : List Expr} {tokens : List Token}
    (derives : DerivesProgram limit (tokens.map Token.lexeme) trees exprs) :
    readAllOn limit size .nothing finished tokens = .ok (finished.reverse ++ exprs) := by
  induction trees generalizing exprs tokens finished with
  | nil =>
      rcases derives with ⟨lexemes, ⟨⟩⟩
      rcases List.map_eq_nil_iff.mp lexemes.symm with rfl
      simp [readAllOn]
  | cons tree trees induction =>
      rcases derives with ⟨lexemes, _ | @⟨_, _, expr, _, exprs, first, derived⟩⟩
      rcases List.map_eq_append_iff.mp lexemes.symm with ⟨front, after, rfl, ofTree, ofRest⟩
      rcases tree.exists_lexemes_eq_cons with ⟨lexeme, others, begins, _⟩
      rcases List.map_eq_cons_iff.mp (ofTree.trans begins) with ⟨token, front, rfl, _, _⟩
      rw [List.cons_append, readAllOn_cons, ReadStep.next,
        start_complete [] (fillsOuter limit size front) first (Nat.add_zero limit) ofTree.symm]
      have remaining : readAllOn limit size .nothing (expr :: finished) after =
          .ok ((expr :: finished).reverse ++ exprs) := induction ⟨ofRest.symm, derived⟩
      simpa [ReadStep.fill, proceed] using remaining

end

/-! ## The language of the reader -/

theorem readAll_eq_ok_iff (limit size : Nat) {tokens : List Token} {exprs : List Expr} :
    readAll limit size tokens = .ok exprs ↔
      ∃ trees, DerivesProgram limit (tokens.map Token.lexeme) trees exprs := by
  constructor
  · intro accepted
    rcases readAllOn_sound tokens accepted with ⟨trees, others, rfl, derives⟩
    exact ⟨trees, derives⟩
  · rintro ⟨trees, derives⟩
    exact readAllOn_complete derives

theorem parse_eq_ok_iff {limit : Nat} {source : String} {exprs : List Expr} :
    parse limit source = .ok exprs ↔
      ∃ trees, DerivesProgram limit (Lexeme.scan source) trees exprs := by
  rw [parse_eq_readAll]
  exact readAll_eq_ok_iff limit _

/-- The reader accepts exactly the programs of the grammar, and every program has one derivation. -/
theorem readAll_accepts_exactly_grammar (limit size : Nat) (tokens : List Token) :
    (∀ exprs, readAll limit size tokens = .ok exprs ↔
      ∃ trees, DerivesProgram limit (tokens.map Token.lexeme) trees exprs) ∧
    ∀ trees others exprs otherExprs,
      DerivesProgram limit (tokens.map Token.lexeme) trees exprs →
      DerivesProgram limit (tokens.map Token.lexeme) others otherExprs →
      trees = others ∧ exprs = otherExprs := by
  refine ⟨fun exprs => readAll_eq_ok_iff limit size, ?_⟩
  intro trees others exprs otherExprs derives otherDerives
  refine ⟨derives.trees_unique otherDerives, ?_⟩
  have accepted := (readAll_eq_ok_iff limit size).mpr ⟨trees, derives⟩
  have otherAccepted := (readAll_eq_ok_iff limit size).mpr ⟨others, otherDerives⟩
  exact Except.ok.inj (accepted.symm.trans otherAccepted)

end Expr

end RuleLisp
