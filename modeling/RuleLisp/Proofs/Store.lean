import RuleLisp.Inputs
import RuleLisp.Proofs.Json.Grammar
import RuleLisp.Proofs.Lineage
import RuleLisp.Proofs.Store.Contents

/-! # Well-formed stores

In a well-formed store the names of a scope are distinct, and so are the keys of an object. The
scopes of every function exist and belong together. How deep a function may stand is bounded by an
allowance for its body, and every write keeps to that.
-/

namespace RuleLisp

/-- Which expressions may be evaluated at which depth. What is inside an expression is allowed with
it, and the body of a function one scope deeper. -/
structure Allowance where
  Allows : Nat → Expr → Prop
  parts : ∀ {depth expr}, Allows depth expr → ∀ part ∈ expr.parts, Allows depth part
  body : ∀ {depth name params body}, Allows depth (.function name params body) →
    Allows (depth + 1) body

def Allowance.all : Allowance where
  Allows _ _ := True
  parts _ _ _ := trivial
  body _ := trivial

variable (allowance : Allowance)

/-- The scopes that a function was defined in exist, and its body is allowed inside them. -/
def Lineage.Knows (lineage : Lineage) : Function → Prop :=
  Function.FromHostOr fun definition => lineage.Line definition.env.scopes ∧
    allowance.Allows (definition.env.depth + 1) definition.body

theorem Lineage.monotone_knows : Monotone (Lineage.Knows allowance) := by
  intro lineage later le callee known
  exact known.mono fun _ defined => ⟨defined.1.mono le, defined.2⟩

/-- A function of the host that makes its answers from what is known and what it is given. -/
def HostFunction.IsHonest (lineage : Lineage) (run : HostFunction) : Prop :=
  ∀ later, lineage ≤ later → ∀ args,
    (∀ arg ∈ args, Value.WellFormedIn (Lineage.Knows allowance) later arg) →
    ∀ value, run args = .ok value → value.WellFormedIn (Lineage.Knows allowance) later

/-- A store whose scopes have a lineage, with distinct names in each of them. -/
structure Store.IsWellFormed (lineage : Lineage) (store : Store) : Prop extends
    store.Holds (Value.WellFormedIn (Lineage.Knows allowance) lineage)
      (HostFunction.IsHonest allowance lineage) where
  size : store.scopes.size = lineage.parents.length
  names : ∀ number, (Table.keys (store.scope number)).Nodup

namespace Store

theorem isWellFormed_initial : initial.IsWellFormed allowance .single where
  toHolds := holds_initial
  size := rfl
  names number := by
    rcases number with _ | number <;> exact List.nodup_nil

namespace IsWellFormed

variable {allowance} {lineage : Lineage} {store after : Store}
  (wellFormed : store.IsWellFormed allowance lineage)

include wellFormed

theorem host (number : Nat) : HostFunction.IsHonest allowance lineage (store.host number) := by
  unfold Store.host
  rw [Array.getD_eq_getD_getElem?]
  cases found : store.hosts[number]? with
  | none =>
      intro later _ args _ value answered
      cases answered
      exact .null
  | some run => exact wellFormed.hosts run (Array.mem_of_getElem? found)

/-! ## Writing -/

theorem of_scopes_eq (scopes : after.scopes = store.scopes)
    (hosts : ∀ run ∈ after.hosts, run.IsHonest allowance lineage) :
    after.IsWellFormed allowance lineage where
  toHolds := wellFormed.toHolds.of_scopes_eq scopes hosts
  size := by rw [scopes, wellFormed.size]
  names number := by
    rw [scope_eq, scopes, ← scope_eq]
    exact wellFormed.names number

theorem print (line : String) : (store.print line).IsWellFormed allowance lineage :=
  wellFormed.of_scopes_eq rfl wellFormed.hosts

theorem define (env : Environment) (name : String) {value : Value}
    (holds : value.WellFormedIn (Lineage.Knows allowance) lineage) :
    (store.define env name value).IsWellFormed allowance lineage where
  toHolds := wellFormed.toHolds.define env name holds
  size := by rw [size_define, wellFormed.size]
  names number := by
    rw [scope_define]
    split
    · exact Table.nodup_keys_insert name value (wellFormed.names number)
    · exact wellFormed.names number

theorem defineClosure {env : Environment} (line : lineage.Line env.scopes) {name : String}
    {params : List String} {body : Expr}
    (allowed : allowance.Allows env.depth (.function name params body)) :
    (store.defineClosure env name params body).IsWellFormed allowance lineage := by
  have counted : IsWellFormed allowance lineage { store with closures := store.closures + 1 } :=
    wellFormed.of_scopes_eq rfl wellFormed.hosts
  exact counted.define env name (.function ⟨line, allowance.body allowed⟩)

theorem defineHost (env : Environment) (name : String) {run : HostFunction}
    (honest : run.IsHonest allowance lineage) :
    (store.defineHost env name run).IsWellFormed allowance lineage := by
  have hosted : IsWellFormed allowance lineage { store with hosts := store.hosts.push run } :=
    wellFormed.of_scopes_eq rfl (wellFormed.toHolds.pushHost honest).hosts
  exact hosted.define env name (.function trivial)

/-! ## Opening scopes -/

theorem push {bindings : Table Value} (distinct : (Table.keys bindings).Nodup)
    (all : ∀ binding ∈ bindings, Value.WellFormedIn (Lineage.Knows allowance) lineage binding.2)
    (parent : Option Nat) (known : ∀ number ∈ parent, number < lineage.parents.length) :
    IsWellFormed allowance (lineage.extend parent known)
      { store with scopes := store.scopes.push bindings } where
  toHolds := by
    have le := lineage.le_extend parent known
    apply (wellFormed.toHolds.pushScope all).mono
    · exact fun _ holds => holds.mono (Lineage.monotone_knows allowance le)
    · exact fun _ honest later lt => honest later (le.trans lt)
  size := by
    rw [Array.size_push, wellFormed.size, Lineage.extend, List.length_append]
    rfl
  names number := by
    rw [scope_eq, Array.getElem?_push]
    split
    · exact distinct
    · rw [← scope_eq]
      exact wellFormed.names number

theorem nest {env : Environment} (line : lineage.Line env.scopes) {bindings : Table Value}
    (distinct : (Table.keys bindings).Nodup)
    (all : ∀ binding ∈ bindings, Value.WellFormedIn (Lineage.Knows allowance) lineage binding.2) :
    ∃ later, lineage ≤ later ∧ later.Line (store.nest env bindings).1.scopes ∧
      (store.nest env bindings).2.IsWellFormed allowance later := by
  have known : ∀ number ∈ some env.scope, number < lineage.parents.length := by
    intro number same
    cases same
    exact line.lt_length env.scope List.mem_cons_self
  refine ⟨lineage.extend (some env.scope) known, lineage.le_extend _ known, ?_, ?_⟩
  · rw [Store.nest, wellFormed.size]
    exact Lineage.line_extend line known
  · exact wellFormed.push distinct all _ known

theorem addRoot :
    ∃ later, lineage ≤ later ∧ later.Line store.addRoot.1.scopes ∧
      store.addRoot.2.IsWellFormed allowance later := by
  have known : ∀ number ∈ none, number < lineage.parents.length := by
    intro number absent
    cases absent
  refine ⟨lineage.extend none known, lineage.le_extend none known, ?_, ?_⟩
  · rw [Store.addRoot, wellFormed.size]
    exact lineage.line_extend_none known
  · have empty : (Table.keys ([] : Table Value)).Nodup := List.nodup_nil
    exact wellFormed.push empty (fun _ member => nomatch member) none known

end IsWellFormed

end Store

/-! ## Inputs -/

namespace Json

variable {number? : Numeral → Option Float}

theorem exists_of_mem_valuesWith? {items : List Json} {values : List Value}
    (read : valuesWith? number? items = some values) {value : Value} (member : value ∈ values) :
    ∃ item ∈ items, item.valueWith? number? = some value := by
  induction items generalizing values with
  | nil =>
      cases read
      cases member
  | cons item rest induction =>
      simp only [valuesWith?, Option.bind_eq_bind, Option.bind_eq_some_iff] at read
      rcases read with ⟨first, readFirst, others, readOthers, same⟩
      cases same
      rcases List.mem_cons.mp member with same | later
      · exact ⟨item, List.mem_cons_self, same ▸ readFirst⟩
      · rcases induction readOthers later with ⟨other, among, readOther⟩
        exact ⟨other, List.mem_cons_of_mem item among, readOther⟩

theorem exists_of_mem_fieldsWith? {members : List (String × Json)}
    {fields : List (String × Value)} (read : fieldsWith? number? members = some fields)
    {field : String × Value} (present : field ∈ fields) :
    ∃ member ∈ members, member.2.valueWith? number? = some field.2 := by
  induction members generalizing fields with
  | nil =>
      cases read
      cases present
  | cons member rest induction =>
      simp only [fieldsWith?, Option.bind_eq_bind, Option.bind_eq_some_iff] at read
      rcases read with ⟨first, readFirst, others, readOthers, same⟩
      cases same
      rcases List.mem_cons.mp present with same | later
      · exact ⟨member, List.mem_cons_self, same ▸ readFirst⟩
      · rcases induction readOthers later with ⟨other, among, readOther⟩
        exact ⟨other, List.mem_cons_of_mem member among, readOther⟩

/-- A JSON text holds no functions, and a key that it repeats is one key. -/
theorem isWellFormed_of_valueWith? (known : Function → Prop) {json : Json} {value : Value}
    (read : json.valueWith? number? = some value) : value.IsWellFormed known := by
  induction json generalizing value with
  | null =>
      cases read
      exact .null
  | bool value =>
      cases read
      exact .bool value
  | string text =>
      cases read
      exact .string text
  | number numeral =>
      rcases Option.map_eq_some_iff.mp read with ⟨number, _, same⟩
      exact same ▸ .number number
  | array items induction =>
      rcases Option.map_eq_some_iff.mp read with ⟨values, readValues, same⟩
      subst same
      apply Value.IsWellFormed.list
      intro value member
      rcases exists_of_mem_valuesWith? readValues member with ⟨item, among, readItem⟩
      exact induction item among readItem
  | object members induction =>
      rcases Option.map_eq_some_iff.mp read with ⟨fields, readFields, same⟩
      subst same
      apply Value.IsWellFormed.object (Table.nodup_keys_ofList fields)
      intro field member
      rcases exists_of_mem_fieldsWith? readFields (Table.mem_of_mem_ofList member) with
        ⟨entry, among, readEntry⟩
      exact induction entry among readEntry

end Json

theorem Inputs.isWellFormed_of_read (known : Function → Prop) {text : String}
    {inputs : Table Value} (read : Inputs.read text = .ok inputs) :
    ∀ input ∈ inputs, input.2.IsWellFormed known := by
  unfold Inputs.read at read
  split at read
  · cases read
  · split at read
    · cases read
    · next fields found =>
        cases read
        exact (Json.isWellFormed_of_valueWith? known found).field
    · cases read

namespace Store.IsWellFormed

variable {allowance} {lineage : Lineage} {store : Store}
  (wellFormed : store.IsWellFormed allowance lineage)

include wellFormed

theorem bindAll (env : Environment) {inputs : Table Value}
    (all : ∀ input ∈ inputs, input.2.WellFormedIn (Lineage.Knows allowance) lineage) :
    (Inputs.bindAll store env inputs).IsWellFormed allowance lineage := by
  induction inputs generalizing store with
  | nil => exact wellFormed
  | cons input rest induction =>
      rw [List.forall_mem_cons] at all
      exact induction (wellFormed.define env (inputName input.1) all.1) all.2

theorem bindText (env : Environment) (text : String) :
    ((Inputs.bindText env text).run store).2.IsWellFormed allowance lineage := by
  unfold Inputs.bindText
  cases read : Inputs.read text with
  | error error => exact wellFormed
  | ok inputs => exact wellFormed.bindAll env (Inputs.isWellFormed_of_read _ read)

end Store.IsWellFormed

end RuleLisp
