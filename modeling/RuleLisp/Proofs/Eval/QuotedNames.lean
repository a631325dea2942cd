import RuleLisp.Proofs.Eval.Repetition

/-! # Names that are quoted

A quoted text stands for itself wherever it is evaluated. At the head of a list it is not evaluated
but called, and a call looks the text up, quoted or not. So the value of a name can matter only to
a program that has the name as a symbol or at the head of a list.
-/

namespace RuleLisp

/-! ## Stores that differ in one name -/

def Function.IsBlindTo (name : String) : Function → Prop :=
  FromHostOr fun definition => name ∉ definition.body.lookups

abbrev Value.IsBlindTo (name : String) (value : Value) : Prop :=
  value.AllFunctions (Function.IsBlindTo name)

namespace Store

structure AgreesExcept (name : String) (left right : Store) : Prop where
  size_eq : left.scopes.size = right.scopes.size
  get?_eq : ∀ scope other, other ≠ name →
    Table.get? other (left.scope scope) = Table.get? other (right.scope scope)
  closures_eq : left.closures = right.closures
  hosts_eq : left.hosts = right.hosts
  printed_eq : left.printed = right.printed

/-- No function that a program can get hold of, other than through the name itself, looks the name
up. -/
structure IsBlindTo (name : String) (store : Store) : Prop where
  values : ∀ scope other, other ≠ name → ∀ value ∈ Table.get? other (store.scope scope),
    value.IsBlindTo name
  hosts : ∀ run ∈ store.hosts, ∀ args, (∀ arg ∈ args, arg.IsBlindTo name) →
    ∀ result, run args = .ok result → result.IsBlindTo name

variable {name : String} {store : Store}

theorem agreesExcept_define (store : Store) (env : Environment) (name : String) (value : Value) :
    store.AgreesExcept name (store.define env name value) where
  size_eq := (size_define store env name value).symm
  closures_eq := rfl
  hosts_eq := rfl
  printed_eq := rfl
  get?_eq := by
    intro scope other different
    rw [scope_define]
    split
    · rw [Table.get?_insert, if_neg (Ne.symm different)]
    · rfl

theorem isBlindTo_initial (name : String) : initial.IsBlindTo name where
  values := by
    intro scope other _ value found
    rcases scope with _ | scope <;> cases found
  hosts := by
    intro run member
    simp [initial] at member

theorem IsBlindTo.define (blind : store.IsBlindTo name) (env : Environment) (defined : String)
    {value : Value} (known : value.IsBlindTo name) :
    (store.define env defined value).IsBlindTo name where
  hosts := blind.hosts
  values := by
    intro scope other different present found
    rw [scope_define] at found
    split at found
    · rw [Table.get?_insert] at found
      split at found
      · cases found
        exact known
      · exact blind.values scope other different present found
    · exact blind.values scope other different present found

theorem IsBlindTo.defineClosure (blind : store.IsBlindTo name) (env : Environment)
    (defined : String) (params : List String) {body : Expr} (unread : name ∉ body.lookups) :
    (store.defineClosure env defined params body).IsBlindTo name := by
  have counted : IsBlindTo name { store with closures := store.closures + 1 } :=
    ⟨blind.values, blind.hosts⟩
  exact counted.define env defined (.function unread)

end Store

/-! ## Everything is paired with itself -/

theorem Numbering.pairs_keeping_iff {first number other : Nat} :
    (keeping (Nat.le_refl first)).Pairs number other ↔ number = other := by
  constructor
  · rintro (⟨same, -⟩ | ⟨-, same⟩)
    · exact same
    · exact Nat.add_right_cancel same
  · rintro rfl
    by_cases given : number < first
    · exact .inl ⟨rfl, given⟩
    · exact .inr ⟨Nat.le_of_not_lt given, rfl⟩

namespace Correspondence

variable {name : String} {left right : Store}

def alongside (store : Store) : Correspondence :=
  onward (.refl store) (.refl store)

theorem pairsEnvironment_alongside_iff {env other : Environment} :
    (alongside left).PairsEnvironment env other ↔ env = other := by
  have same : (alongside left).scopes.Pairs = Eq := by
    funext number other
    exact propext Numbering.pairs_keeping_iff
  rw [PairsEnvironment, same, List.forall₂_eq_eq_eq]
  rcases env with ⟨scope, outer⟩
  rcases other with ⟨otherScope, otherOuter⟩
  simp [Environment.scopes]

theorem pairsFunction_alongside_iff {callee other : Function} :
    (alongside left).PairsFunction (· ≠ name) callee other ↔
      callee = other ∧ callee.IsBlindTo name := by
  constructor
  · intro paired
    cases paired with
    | closure identities lookups scopes =>
        rw [Numbering.pairs_keeping_iff.mp identities, pairsEnvironment_alongside_iff.mp scopes]
        exact ⟨rfl, fun member => lookups name member rfl⟩
    | host number same =>
        cases same
        exact ⟨rfl, trivial⟩
  · rintro ⟨rfl, blind⟩
    cases callee with
    | closure definition =>
        apply PairsFunction.closure (Numbering.pairs_keeping_iff.mpr rfl)
        · rintro mention member rfl
          exact blind member
        · exact pairsEnvironment_alongside_iff.mpr rfl
    | host number title => exact .host title rfl

theorem like_alongside_iff {value other : Value} :
    Value.Like ((alongside left).functions (· ≠ name)) value other ↔
      value = other ∧ value.IsBlindTo name := by
  constructor
  · intro alike
    exact ⟨alike.eq_of_paired fun paired => (pairsFunction_alongside_iff.mp paired).1,
      alike.allFunctions fun paired => (pairsFunction_alongside_iff.mp paired).2⟩
  · rintro ⟨rfl, blind⟩
    exact blind.like fun callee blind => pairsFunction_alongside_iff.mpr ⟨rfl, blind⟩

theorem host_alongside (blind : left.IsBlindTo name) (number : Nat) {args : List Value}
    (argsBlind : ∀ arg ∈ args, arg.IsBlindTo name) :
    OutcomeRel (Value.Like ((alongside left).functions (· ≠ name))) (left.host number args)
      (left.host number args) := by
  unfold Store.host
  rw [Array.getD_eq_getD_getElem?]
  cases found : left.hosts[number]? with
  | none => exact .ok .null
  | some run =>
      rw [Option.getD_some]
      cases answer : run args with
      | error error => exact .error error
      | ok result =>
          have known := blind.hosts run (Array.mem_of_getElem? found) args argsBlind result answer
          exact .ok (like_alongside_iff.mpr ⟨rfl, known⟩)

theorem holds_alongside (agree : left.AgreesExcept name right) (blind : left.IsBlindTo name) :
    (alongside left).Holds (· ≠ name) left right where
  scopes := ⟨Nat.le_refl _, congrArg (· + left.scopes.size) agree.size_eq⟩
  closures := ⟨Nat.le_refl _, congrArg (· + left.closures) agree.closures_eq⟩
  printed := ⟨#[], Array.append_empty.symm, agree.printed_eq ▸ Array.append_empty.symm⟩
  host := by
    intro number other args others same alike
    cases same
    have equal : args = others := by
      rw [← List.forall₂_eq_eq_eq]
      exact alike.imp fun _ _ values => (like_alongside_iff.mp values).1
    subst equal
    have sameHost : right.host number = left.host number := by
      rw [Store.host, Store.host, agree.hosts_eq]
    rw [sameHost]
    apply host_alongside blind
    intro arg member
    exact (like_alongside_iff.mp (List.forall₂_same.mp alike arg member)).2
  get? := by
    intro number other asked pairs read
    rw [← Numbering.pairs_keeping_iff.mp pairs, ← agree.get?_eq number asked read]
    cases found : Table.get? asked (left.scope number) with
    | none => exact .none
    | some value =>
        have known := blind.values number asked read value found
        exact .some (like_alongside_iff.mpr ⟨rfl, known⟩)

end Correspondence

/-! ## The value of a name that is not looked up -/

namespace Eval

/-- A program that looks a name up nowhere, neither as a symbol nor at the head of a list, gives the
same result and prints the same lines whatever the value of the name is. -/
theorem quoted_name_does_not_matter (limit : Nat) (env : Environment) {name : String}
    {program : List Expr} (unread : name ∉ Expr.rowLookups program) {left right : Store}
    (agree : left.AgreesExcept name right) (blind : left.IsBlindTo name) :
    let ran := (exprs limit env program).runOn left
    let otherRan := (exprs limit env program).runOn right
    ran.1 = otherRan.1 ∧ ran.2.printed = otherRan.2.printed := by
  have confined : ∀ item ∈ program, item.Confined (· ≠ name) fun _ => True := by
    intro item member
    refine ⟨?_, fun _ _ => trivial⟩
    rintro mention inside rfl
    exact unread (Expr.mem_rowLookups.mpr ⟨item, member, inside⟩)
  have pairs : (Correspondence.alongside left).PairsEnvironment env env :=
    Correspondence.pairsEnvironment_alongside_iff.mpr rfl
  have start := Correspondence.holds_alongside agree blind
  obtain ⟨outcomes, holds⟩ := respects_row limit confined pairs left right start
  obtain ⟨lines, printed, otherPrinted⟩ := holds.printed
  refine ⟨?_, printed.trans otherPrinted.symm⟩
  generalize ((exprs limit env program).runOn left).1 = outcome at outcomes ⊢
  generalize ((exprs limit env program).runOn right).1 = otherOutcome at outcomes ⊢
  cases outcomes with
  | ok values => rw [(Correspondence.like_alongside_iff.mp values).1]
  | error error => rfl

/-- The name is the text of an argument, of a key and of a value. -/
theorem quoted_name_does_not_matter_greeting :
    let body : Expr := .list [.atom (.symbol "concat"), .atom (.symbol "y"), .atom (.string "a")]
    let left := Store.initial.defineClosure .root "greet" ["y"] body
    let right := left.define .root "a" (.bool true)
    let greeting : Expr := .list [.atom (.symbol "greet"), .atom (.string "a")]
    let program : List Expr :=
      [.list [.atom (.symbol "print"), greeting, .object none [("a", .atom (.string "a"))]]]
    "a" ∉ Expr.rowLookups program ∧ left.AgreesExcept "a" right ∧ left.IsBlindTo "a" ∧
      ((exprs 4 .root program).runOn left).1 = ((exprs 4 .root program).runOn right).1 ∧
      ((exprs 4 .root program).runOn right).2.printed = #["(\"a\" \"a\") \x7ba: \"a\"\x7d"] := by
  intro body left right greeting program
  have unread : "a" ∉ Expr.rowLookups program := by
    decide
  have agree : left.AgreesExcept "a" right := Store.agreesExcept_define left .root "a" _
  have blind : left.IsBlindTo "a" :=
    (Store.isBlindTo_initial "a").defineClosure .root "greet" ["y"] (by decide)
  have same := quoted_name_does_not_matter 4 .root unread agree blind
  have printed : ((exprs 4 .root program).runOn left).2.printed =
      #["(\"a\" \"a\") \x7ba: \"a\"\x7d"] := by
    decide +kernel
  exact ⟨unread, agree, blind, same.1, same.2.symm.trans printed⟩

/-- At the head of a list, a name matters even though it is quoted: with a value of its own it is
not read as the key of a field. -/
theorem quoted_head_matters :
    let program : List Expr :=
      [.list [.atom (.string "$a"), .object none [("$a", .atom (.string "b"))]]]
    let left := Store.initial
    let right := Store.initial.bindInput .root "a" (.bool true)
    (∀ word ∈ Expr.rowAtoms program, word.symbol? ≠ some "$a") ∧
      "$a" ∉ Expr.rowWritten program ∧ left.AgreesExcept "$a" right ∧ left.IsBlindTo "$a" ∧
      ((exprs 3 .root program).runOn left).1 = .ok (.string "b") ∧
      ((exprs 3 .root program).runOn right).1 = .error (.unknownFunction "$a") := by
  intro program left right
  exact ⟨by decide, by decide, Store.agreesExcept_define left .root "$a" _,
    Store.isBlindTo_initial "$a", rfl, rfl⟩

end Eval

end RuleLisp
