import RuleLisp.Proofs.Eval.Correspondence
import RuleLisp.Proofs.Grammar.Reader

/-! # What a program mentions

A program depends on the environment that it runs in only through the names that are written in
its source, bare or quoted. Two environments with the same values for these names give the same
result, whatever else they hold.
-/

namespace RuleLisp

/-! ## Mentioned names -/

def Lexeme.atom? : Lexeme → Option Atom
  | opening _ | closing _ => none
  | word text => Atom.ofWord? text

/-- The texts of the atoms that are written in a source, bare or quoted. -/
def Program.mentions (source : String) : List String :=
  (Lexeme.scan source).filterMap fun lexeme => lexeme.atom?.bind Atom.text?

namespace Tree

mutual

/-- Every atom of an expression is written in its tree. -/
theorem exists_lexeme_of_mem_atoms : ∀ (tree : Tree) {limit : Nat} {expr : Expr} {atom : Atom},
    Derives limit tree expr → atom ∈ expr.atoms →
    ∃ lexeme ∈ tree.lexemes, lexeme.atom? = some atom
  | .word text => by
      rintro ⟨accepted⟩ member
      rw [Expr.atoms, List.mem_singleton] at member
      exact ⟨.word text, by simp [lexemes], by rw [Lexeme.atom?, accepted, member]⟩
  | .list items => by
      intro derived member
      rcases derived with _ | ⟨_, derived⟩
      rw [Expr.atoms] at member
      rcases exists_lexeme_of_mem_rowAtoms items derived member with ⟨lexeme, inside, read⟩
      exact ⟨lexeme, by simp [lexemes, inside], read⟩
  | .function name params body => by
      intro derived member
      rcases derived with _ | _ | ⟨_, _, derived⟩
      rw [Expr.atoms] at member
      rcases exists_lexeme_of_mem_atoms body derived member with ⟨lexeme, inside, read⟩
      exact ⟨lexeme, by simp [lexemes, inside], read⟩
  | .object entries => by
      intro derived member
      rcases derived with _ | _ | _ | ⟨_, derived⟩
      rw [Expr.atoms, Expr.baseAtoms, List.nil_append] at member
      have written := Expr.propertyAtoms_ofList_subset _ member
      rcases exists_lexeme_of_mem_propertyAtoms entries derived written with
        ⟨lexeme, inside, read⟩
      exact ⟨lexeme, by simp [lexemes, inside], read⟩
  | .extension base entries => by
      intro derived member
      rcases derived with _ | _ | _ | _ | ⟨extended, derived⟩
      rw [Expr.atoms, Expr.baseAtoms, List.mem_append] at member
      rcases member with member | member
      · rcases exists_lexeme_of_mem_atoms base extended member with ⟨lexeme, inside, read⟩
        exact ⟨lexeme, by simp [lexemes, inside], read⟩
      · have written := Expr.propertyAtoms_ofList_subset _ member
        rcases exists_lexeme_of_mem_propertyAtoms entries derived written with
          ⟨lexeme, inside, read⟩
        exact ⟨lexeme, by simp [lexemes, inside], read⟩

theorem exists_lexeme_of_mem_rowAtoms : ∀ (trees : List Tree) {limit : Nat} {exprs : List Expr}
    {atom : Atom}, DerivesRow limit trees exprs → atom ∈ Expr.rowAtoms exprs →
    ∃ lexeme ∈ rowLexemes trees, lexeme.atom? = some atom
  | [] => by
      rintro ⟨⟩ member
      cases member
  | tree :: rest => by
      intro derived member
      rcases derived with _ | ⟨first, derived⟩
      rw [Expr.rowAtoms, List.mem_append] at member
      rcases member with member | member
      · rcases exists_lexeme_of_mem_atoms tree first member with ⟨lexeme, inside, read⟩
        exact ⟨lexeme, by simp [rowLexemes, inside], read⟩
      · rcases exists_lexeme_of_mem_rowAtoms rest derived member with ⟨lexeme, inside, read⟩
        exact ⟨lexeme, by simp [rowLexemes, inside], read⟩

theorem exists_lexeme_of_mem_propertyAtoms : ∀ (entries : List (String × Tree)) {limit : Nat}
    {properties : List (String × Expr)} {atom : Atom}, DerivesEntries limit entries properties →
    atom ∈ Expr.propertyAtoms properties →
    ∃ lexeme ∈ entryLexemes entries, lexeme.atom? = some atom
  | [] => by
      rintro ⟨⟩ member
      cases member
  | (key, tree) :: rest => by
      intro derived member
      rcases derived with _ | ⟨_, _, first, derived⟩
      rw [Expr.propertyAtoms, List.mem_append] at member
      rcases member with member | member
      · rcases exists_lexeme_of_mem_atoms tree first member with ⟨lexeme, inside, read⟩
        exact ⟨lexeme, by simp [entryLexemes, inside], read⟩
      · rcases exists_lexeme_of_mem_propertyAtoms rest derived member with ⟨lexeme, inside, read⟩
        exact ⟨lexeme, by simp [entryLexemes, inside], read⟩

end

end Tree

namespace Program

theorem mem_mentions_of_parse {limit : Nat} {source : String} {exprs : List Expr}
    (parsed : Expr.parse limit source = .ok exprs) {atom : Atom}
    (member : atom ∈ Expr.rowAtoms exprs) {name : String} (text : atom.text? = some name) :
    name ∈ mentions source := by
  rcases Expr.parse_eq_ok_iff.mp parsed with ⟨trees, scanned, derived⟩
  rcases Tree.exists_lexeme_of_mem_rowAtoms trees derived member with ⟨lexeme, inside, read⟩
  rw [scanned] at inside
  apply List.mem_filterMap.mpr
  exact ⟨lexeme, inside, by rw [read, Option.bind_some, text]⟩

end Program

/-! ## Root environments -/

theorem Store.lookup?_root (store : Store) (number : Nat) (name : String) :
    store.lookup? ⟨number, []⟩ name = Table.get? name (store.scope number) := by
  simp [lookup?, Environment.scopes]

namespace Correspondence

variable {left right : Store} {number other : Nat}

def ofRoots (known : number < left.scopes.size) (otherKnown : other < right.scopes.size) :
    Correspondence where
  scopes := {
    old := fun scope otherScope => scope = number ∧ otherScope = other
    first := left.scopes.size
    otherFirst := right.scopes.size
    bounded := by
      rintro _ _ ⟨rfl, rfl⟩
      exact ⟨known, otherKnown⟩
    unique := by
      rintro _ _ _ _ ⟨rfl, rfl⟩ ⟨rfl, rfl⟩
      exact ⟨fun _ => rfl, fun _ => rfl⟩ }
  closures := {
    old := fun _ _ => False
    first := left.closures
    otherFirst := right.closures
    bounded := False.elim
    unique := False.elim }
  hosts _ _ := False
  hosts_unique := False.elim
  printed := left.printed
  otherPrinted := right.printed

theorem holds_ofRoots {reads : String → Prop} (known : number < left.scopes.size)
    (otherKnown : other < right.scopes.size)
    (free : ∀ name, reads name → ∀ value ∈ left.lookup? ⟨number, []⟩ name, value.IsFunctionFree)
    (agree : ∀ name, reads name →
      left.lookup? ⟨number, []⟩ name = right.lookup? ⟨other, []⟩ name) :
    (ofRoots known otherKnown).Holds reads left right where
  scopes := ⟨Nat.le_refl _, Nat.add_comm ..⟩
  closures := ⟨Nat.le_refl _, Nat.add_comm ..⟩
  host := False.elim
  printed := ⟨#[], Array.append_empty.symm, Array.append_empty.symm⟩
  get? := by
    intro scope otherScope name pairs read
    rcases pairs with ⟨rfl, rfl⟩ | fresh
    · have same := agree name read
      have functionFree := free name read
      rw [Store.lookup?_root, Store.lookup?_root] at same
      rw [Store.lookup?_root] at functionFree
      rw [← same]
      cases found : Table.get? name (left.scope scope) with
      | none => exact .none
      | some value => exact .some ((functionFree value found).like fun _ => False.elim)
    · rw [Store.scope_eq_nil fresh.le, Store.scope_eq_nil fresh.otherLe]
      exact .none

end Correspondence

/-! ## The result of a program -/

namespace Program

/-- Two root environments that agree on the names that a source mentions, and have no functions
under them, give the same outcome and print the same lines. -/
theorem unmentioned_names_do_not_matter {nesting : Nat} (limit : Nat) {source : String}
    {exprs : List Expr} (parsed : Expr.parse nesting source = .ok exprs) {left right : Store}
    {number other : Nat} (known : number < left.scopes.size)
    (otherKnown : other < right.scopes.size)
    (free : ∀ name ∈ mentions source, ∀ value ∈ left.lookup? ⟨number, []⟩ name,
      value.IsFunctionFree)
    (agree : ∀ name ∈ mentions source,
      left.lookup? ⟨number, []⟩ name = right.lookup? ⟨other, []⟩ name) :
    let ran := (Eval.exprs limit ⟨number, []⟩ exprs).runOn left
    let otherRan := (Eval.exprs limit ⟨other, []⟩ exprs).runOn right
    OutcomeRel Value.Resembles ran.1 otherRan.1 ∧
      ∃ lines, ran.2.printed = left.printed ++ lines ∧
        otherRan.2.printed = right.printed ++ lines := by
  let between := Correspondence.ofRoots known otherKnown
  have admits : ∀ item ∈ exprs, item.Admits (· ∈ mentions source) fun _ => True := by
    intro item member
    refine ⟨?_, fun _ _ => trivial⟩
    intro atom inside name text
    exact mem_mentions_of_parse parsed (Expr.mem_rowAtoms.mpr ⟨item, member, inside⟩) text
  have pairs : between.PairsEnvironment ⟨number, []⟩ ⟨other, []⟩ :=
    .cons (.inl ⟨rfl, rfl⟩) .nil
  have start := Correspondence.holds_ofRoots known otherKnown free agree
  rcases Eval.respects_exprs limit admits pairs left right start with ⟨outcomes, holds⟩
  exact ⟨outcomes.mono fun _ _ alike => alike.resembles, holds.printed⟩

/-- A function greets the parts of an input. The other side has a function before that input and
not the input after it, in a scope with another number. -/
theorem unmentioned_names_do_not_matter_greeting :
    let source := "(defun (greet x) (concat x $name)) (print (greet \"hello\"))"
    let parts : Value := .list [.string "a", .null]
    let left : Store := ⟨#[[("$name", parts), ("$age", .bool true)]], 0, #[], #[]⟩
    let right : Store :=
      ⟨#[[], [("f", .function (.host 0 "f")), ("$name", parts)]], 7, #[fun _ => .ok .null], #["f"]⟩
    ∃ exprs, Expr.parse 2 source = .ok exprs ∧ 0 < left.scopes.size ∧ 1 < right.scopes.size ∧
      (∀ name ∈ mentions source, ∀ value ∈ left.lookup? ⟨0, []⟩ name, value.IsFunctionFree) ∧
      (∀ name ∈ mentions source, left.lookup? ⟨0, []⟩ name = right.lookup? ⟨1, []⟩ name) ∧
      ((Eval.exprs 4 ⟨0, []⟩ exprs).runOn left).2.printed = #["(\"hello\" \"a\" null)"] ∧
      ((Eval.exprs 4 ⟨1, []⟩ exprs).runOn right).2.printed =
        #["f", "(\"hello\" \"a\" null)"] := by
  intro source parts left right
  have checked : (match Expr.parse 2 source with
      | .ok exprs => decide
          (((Eval.exprs 4 ⟨0, []⟩ exprs).runOn left).2.printed = #["(\"hello\" \"a\" null)"])
      | .error _ => false) = true := by
    decide +kernel
  have unmentioned : ∀ name ∈ mentions source, "$age" ≠ name ∧ "f" ≠ name := by
    decide +kernel
  have partsFree : parts.IsFunctionFree := by
    apply Value.AllFunctions.list
    simp [Value.AllFunctions.null, Value.AllFunctions.string]
  have free : ∀ name ∈ mentions source, ∀ value ∈ left.lookup? ⟨0, []⟩ name,
      value.IsFunctionFree := by
    intro name _ value found
    rw [Store.lookup?_root] at found
    have bound : (name, value) ∈ [("$name", parts), ("$age", Value.bool true)] :=
      Table.mem_of_get? found
    simp only [List.mem_cons, Prod.mk.injEq, List.not_mem_nil, or_false] at bound
    rcases bound with ⟨_, rfl⟩ | ⟨_, rfl⟩
    · exact partsFree
    · exact .bool true
  have agree : ∀ name ∈ mentions source,
      left.lookup? ⟨0, []⟩ name = right.lookup? ⟨1, []⟩ name := by
    intro name mentioned
    rcases unmentioned name mentioned with ⟨noAge, noFunction⟩
    rw [Store.lookup?_root, Store.lookup?_root]
    simp [left, right, Store.scope, Table.get?, noAge, noFunction]
  split at checked
  · next exprs parsed =>
      have printed := of_decide_eq_true checked
      rcases unmentioned_names_do_not_matter 4 parsed Nat.zero_lt_one Nat.one_lt_two free agree with
        ⟨_, lines, same, otherSame⟩
      rw [printed, Array.empty_append] at same
      rw [← same] at otherSame
      exact ⟨exprs, parsed, Nat.zero_lt_one, Nat.one_lt_two, free, agree, printed, otherSame⟩
  · cases checked

end Program

end RuleLisp
