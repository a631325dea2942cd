import RuleLisp.Proofs.Eval.Relation

/-! # Stores that correspond

Two stores need not be equal for runs on them to be the same to an observer: scopes and functions
may be numbered otherwise, and names that the runs never look up may have any value. A
*correspondence* pairs scopes and functions of two stores. Whatever is added to corresponding
stores later is paired in the order in which it comes, so evaluation keeps the correspondence.
-/

namespace RuleLisp

/-! ## Pairs of numbers -/

/-- A pairing of numbers that are given out in order on two sides. Some of those that were given
out before are paired, and from then on each with the one that is given out at the same time. -/
structure Numbering where
  old : Nat → Nat → Prop
  /-- The first number that was not given out before. -/
  first : Nat
  otherFirst : Nat
  bounded : ∀ {number other}, old number other → number < first ∧ other < otherFirst
  unique : ∀ {number other second otherSecond}, old number other → old second otherSecond →
    (number = second ↔ other = otherSecond)

namespace Numbering

variable (numbering : Numbering)

structure Fresh (number other : Nat) : Prop where
  le : numbering.first ≤ number
  same : number + numbering.otherFirst = other + numbering.first

def Pairs (number other : Nat) : Prop :=
  numbering.old number other ∨ numbering.Fresh number other

variable {numbering} {number other second otherSecond : Nat}

theorem Fresh.succ (fresh : numbering.Fresh number other) :
    numbering.Fresh (number + 1) (other + 1) := by
  rcases fresh with ⟨le, same⟩
  exact ⟨by omega, by omega⟩

theorem Fresh.otherLe (fresh : numbering.Fresh number other) : numbering.otherFirst ≤ other := by
  rcases fresh with ⟨le, same⟩
  omega

theorem Pairs.unique (pairs : numbering.Pairs number other)
    (otherPairs : numbering.Pairs second otherSecond) :
    number = second ↔ other = otherSecond := by
  rcases pairs with old | ⟨le, same⟩ <;> rcases otherPairs with otherOld | ⟨otherLe, otherSame⟩
  · exact numbering.unique old otherOld
  · have bounds := numbering.bounded old
    omega
  · have bounds := numbering.bounded otherOld
    omega
  · omega

/-- Of a pair both numbers have been given out, or neither. -/
theorem Pairs.lt_iff (pairs : numbering.Pairs number other)
    (fresh : numbering.Fresh second otherSecond) : number < second ↔ other < otherSecond := by
  rcases fresh with ⟨freshLe, freshSame⟩
  rcases pairs with old | ⟨le, same⟩
  · have bounds := numbering.bounded old
    omega
  · omega

end Numbering

/-! ## Corresponding stores -/

/-- How two stores correspond at the start of the runs that are compared. -/
structure Correspondence where
  scopes : Numbering
  closures : Numbering
  hosts : Nat → Nat → Prop
  hosts_unique : ∀ {number other second otherSecond}, hosts number other →
    hosts second otherSecond → (number = second ↔ other = otherSecond)
  /-- What has been printed at the start. -/
  printed : Array String
  otherPrinted : Array String

namespace Correspondence

variable (between : Correspondence) (reads : String → Prop)

def PairsEnvironment (env other : Environment) : Prop :=
  List.Forall₂ between.scopes.Pairs env.scopes other.scopes

/-- Paired functions look up no name of another kind. -/
inductive PairsFunction : Function → Function → Prop
  | closure {identity otherIdentity : Nat} {name : String} {params : List String} {body : Expr}
      {env other : Environment} (identities : between.closures.Pairs identity otherIdentity)
      (mentions : ∀ mention ∈ body.lookups, reads mention)
      (scopes : between.PairsEnvironment env other) :
      PairsFunction (.closure ⟨identity, name, params, body, env⟩)
        (.closure ⟨otherIdentity, name, params, body, other⟩)
  | host {number other : Nat} (name : String) (paired : between.hosts number other) :
      PairsFunction (.host number name) (.host other name)

def functions : FunctionPairing where
  Paired := between.PairsFunction reads
  name_eq := by
    rintro left right (_ | _) <;> rfl
  same_eq := by
    rintro left right other another (⟨identities, _, _⟩ | ⟨_, paired⟩)
      (⟨otherIdentities, _, _⟩ | ⟨_, otherPaired⟩)
    · simp only [Function.same, beq_eq_beq]
      exact identities.unique otherIdentities
    · rfl
    · rfl
    · simp only [Function.same, beq_eq_beq]
      exact between.hosts_unique paired otherPaired

/-- Stores that an evaluation cannot tell apart if it looks up names of the given kind only. -/
structure Holds (store twin : Store) : Prop where
  scopes : between.scopes.Fresh store.scopes.size twin.scopes.size
  closures : between.closures.Fresh store.closures twin.closures
  get? : ∀ {number other name}, between.scopes.Pairs number other → reads name →
    Option.Rel (Value.Like (between.functions reads)) (Table.get? name (store.scope number))
      (Table.get? name (twin.scope other))
  host : ∀ {number other args others}, between.hosts number other →
    List.Forall₂ (Value.Like (between.functions reads)) args others →
    OutcomeRel (Value.Like (between.functions reads)) (store.host number args)
      (twin.host other others)
  printed : ∃ lines, store.printed = between.printed ++ lines ∧
    twin.printed = between.otherPrinted ++ lines

variable {between reads} {store twin : Store} {env other : Environment}

theorem PairsEnvironment.scope (pairs : between.PairsEnvironment env other) :
    between.scopes.Pairs env.scope other.scope := by
  rcases pairs with _ | ⟨scope, _⟩
  exact scope

namespace Holds

variable (holds : between.Holds reads store twin)

include holds

theorem lookup? (pairs : between.PairsEnvironment env other) {name : String} (read : reads name) :
    Option.Rel (Value.Like (between.functions reads)) (store.lookup? env name)
      (twin.lookup? other name) := by
  unfold PairsEnvironment at pairs
  unfold Store.lookup?
  generalize env.scopes = scopes, other.scopes = otherScopes at pairs
  induction pairs with
  | nil => exact .none
  | cons scope _ induction =>
      rw [List.findSome?_cons, List.findSome?_cons]
      have found := holds.get? scope read
      revert found
      generalize Table.get? name (store.scope _) = value
      generalize Table.get? name (twin.scope _) = otherValue
      intro found
      cases found with
      | none => exact induction
      | some values => exact .some values

theorem define (pairs : between.PairsEnvironment env other) (name : String) {value : Value}
    {otherValue : Value} (values : Value.Like (between.functions reads) value otherValue) :
    between.Holds reads (store.define env name value) (twin.define other name otherValue) where
  scopes := by
    rw [Store.size_define, Store.size_define]
    exact holds.scopes
  closures := holds.closures
  host := holds.host
  printed := holds.printed
  get? := by
    intro number otherNumber asked scopes read
    have nearest := scopes.unique pairs.scope
    have known := scopes.lt_iff holds.scopes
    have present := holds.get? scopes read
    rw [Store.scope_define, Store.scope_define]
    by_cases written : number = env.scope ∧ number < store.scopes.size
    · rw [if_pos written, if_pos ⟨nearest.mp written.1, known.mp written.2⟩]
      rw [Table.get?_insert, Table.get?_insert]
      split
      · exact .some values
      · exact present
    · rw [if_neg written, if_neg fun both => written ⟨nearest.mpr both.1, known.mpr both.2⟩]
      exact present

theorem defineClosure (pairs : between.PairsEnvironment env other) (name : String)
    (params : List String) {body : Expr}
    (mentions : ∀ mention ∈ body.lookups, reads mention) :
    between.Holds reads (store.defineClosure env name params body)
      (twin.defineClosure other name params body) := by
  have counted : between.Holds reads { store with closures := store.closures + 1 }
      { twin with closures := twin.closures + 1 } :=
    ⟨holds.scopes, holds.closures.succ, holds.get?, holds.host, holds.printed⟩
  apply counted.define pairs name
  exact .function (.closure (.inr holds.closures) mentions pairs)

theorem nest (env other : Environment) {bindings others : Table Value}
    (alike : Table.Rel (Value.Like (between.functions reads)) bindings others) :
    between.Holds reads (store.nest env bindings).2 (twin.nest other others).2 where
  scopes := by
    rw [Store.size_nest, Store.size_nest]
    exact holds.scopes.succ
  closures := holds.closures
  host := holds.host
  printed := holds.printed
  get? := by
    intro number otherNumber asked scopes read
    have newest := scopes.unique (.inr holds.scopes)
    rw [Store.scope_nest, Store.scope_nest]
    by_cases new : number = store.scopes.size
    · rw [if_pos new, if_pos (newest.mp new)]
      exact alike.get? asked
    · rw [if_neg new, if_neg fun otherNew => new (newest.mpr otherNew)]
      exact holds.get? scopes read

theorem print (line : String) : between.Holds reads (store.print line) (twin.print line) where
  scopes := holds.scopes
  closures := holds.closures
  get? := holds.get?
  host := holds.host
  printed := by
    rcases holds.printed with ⟨lines, printed, otherPrinted⟩
    refine ⟨lines.push line, ?_, ?_⟩
    · rw [Store.print, printed, Array.append_push]
    · rw [Store.print, otherPrinted, Array.append_push]

end Holds

end Correspondence

/-! ## Evaluation -/

/-- Whatever text is written in an expression, bare or quoted, may be looked up. -/
structure Expr.Admits (reads writes : String → Prop) (expr : Expr) : Prop where
  reads : ∀ word ∈ expr.atoms, ∀ name, word.text? = some name → reads name
  writes : ∀ name ∈ expr.written, writes name

theorem Expr.Admits.confined {reads writes : String → Prop} {expr : Expr}
    (admits : expr.Admits reads writes) : expr.Confined reads writes := by
  refine ⟨fun name member => ?_, admits.writes⟩
  obtain ⟨word, among, text⟩ := exists_atom_of_mem_lookups member
  exact admits.reads word among name text

theorem Eval.parameters_like {functions : FunctionPairing} (params : List String)
    {args others : List Value} (alike : List.Forall₂ (Value.Like functions) args others) :
    Table.Rel (Value.Like functions) (parameters params args) (parameters params others) := by
  induction params generalizing args others with
  | nil => exact .nil
  | cons param params induction =>
      cases alike with
      | nil => exact .cons ⟨param, .null⟩ (induction .nil)
      | cons first rest => exact .cons ⟨param, first⟩ (induction rest)

def Evaluator.Respects (between : Correspondence) (reads : String → Prop) (eval : Evaluator) :
    Prop :=
  ∀ expr env other, expr.Confined reads (fun _ => True) → between.PairsEnvironment env other →
    (RunRelation.ofStores (between.Holds reads)).Relates (Value.Like (between.functions reads))
      (eval expr env) (eval expr other)

namespace Evaluator.Respects

variable {between : Correspondence} {reads : String → Prop} {eval : Evaluator}
  (respects : eval.Respects between reads)

include respects

/-- The scopes of two calls are new on both sides, so they are paired. -/
theorem call {callee twin : Function} {args others : List Value}
    (paired : between.PairsFunction reads callee twin)
    (alike : List.Forall₂ (Value.Like (between.functions reads)) args others) :
    (RunRelation.ofStores (between.Holds reads)).Relates (Value.Like (between.functions reads))
      (Eval.call eval callee args) (Eval.call eval twin others) := by
  cases paired with
  | @closure _ _ _ params _ env other _ mentions scopes =>
      intro store twin holds
      apply respects _ _ _ ⟨mentions, fun _ _ => trivial⟩
      · exact .cons (.inr holds.scopes) scopes
      · exact holds.nest env other (Eval.parameters_like params alike).ofList
  | host name paired =>
      apply RunRelation.bind _ (RunRelation.ofStores_get _)
      intro store twin holds
      exact RunRelation.ofStores_ofExcept (holds.host paired alike)

theorem sideBySide {env other : Environment} (pairs : between.PairsEnvironment env other) :
    SideBySide (.ofStores (between.Holds reads)) (between.functions reads) (between.Holds reads)
      reads (fun _ => True) eval eval env other where
  get := RunRelation.ofStores_get _
  lookup? holds read := holds.lookup? pairs read
  define := by
    intro name value twin _ values
    apply RunRelation.ofStores_modify
    intro store otherStore holds
    exact holds.define pairs name values
  defineClosure := by
    intro name params body _ mentions
    apply RunRelation.ofStores_modify
    intro store twin holds
    exact holds.defineClosure pairs name params mentions
  print := by
    intro line
    apply RunRelation.ofStores_modify
    intro store twin holds
    exact holds.print line
  call := respects.call
  eval confined := respects _ env other confined pairs

theorem step : Evaluator.Respects between reads (Eval.step eval) := by
  intro expr env other confined pairs
  exact (respects.sideBySide pairs).step confined

end Evaluator.Respects

namespace Eval

variable {between : Correspondence} {reads : String → Prop} (limit : Nat)

theorem respects_within (remaining : Nat) :
    Evaluator.Respects between reads (within limit remaining) := by
  induction remaining with
  | zero =>
      intro expr env other _ _ store twin holds
      exact ⟨.error _, holds⟩
  | succ remaining induction => exact induction.step

theorem respects_row {items : List Expr}
    (confined : ∀ item ∈ items, item.Confined reads fun _ => True) {env other : Environment}
    (pairs : between.PairsEnvironment env other) :
    (RunRelation.ofStores (between.Holds reads)).Relates (Value.Like (between.functions reads))
      (exprs limit env items) (exprs limit other items) := by
  let same (item twin : Expr) : Prop := item = twin ∧ item.Confined reads fun _ => True
  have alike : List.Forall₂ same items items :=
    List.forall₂_same.mpr fun item member => ⟨rfl, confined item member⟩
  apply RunRelation.foldlM _ alike
  · rintro item _ _ _ ⟨rfl, inside⟩ _
    exact respects_within limit limit item env other inside pairs
  · exact .null

theorem respects_exprs {items : List Expr}
    (admits : ∀ item ∈ items, item.Admits reads fun _ => True) {env other : Environment}
    (pairs : between.PairsEnvironment env other) :
    (RunRelation.ofStores (between.Holds reads)).Relates (Value.Like (between.functions reads))
      (exprs limit env items) (exprs limit other items) :=
  respects_row limit (fun item member => (admits item member).confined) pairs

end Eval

end RuleLisp
