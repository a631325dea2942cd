import RuleLisp.Proofs.Eval.Relation
import RuleLisp.Proofs.Table

/-! # The history of a store

Scopes are opened inside others or inside none, and variables are written in them, in any order.
What an environment then shows can be read off this history: the value of a name is the last one
that was written for it in the nearest scope in which it was written at all.
-/

namespace RuleLisp

namespace Store

theorem inputName_eq (name : String) :
    inputName name = if name.toList.head? = some '$' then name else "$" ++ name := by
  simp only [inputName, isInputName, decide_eq_true_eq]
  rfl

inductive Write
  | define (name : String) (value : Value)
  | input (name : String) (value : Value)
  | host (name : String) (run : HostFunction)

namespace Write

/-- The name that is written. Inputs have a mark, which may be given with the name. -/
def name : Write → String
  | define name _ => name
  | input name _ => if name.toList.head? = some '$' then name else "$" ++ name
  | host name _ => name

def value (hosts : Nat) : Write → Value
  | define _ value => value
  | input _ value => value
  | host name _ => .function (.host hosts name)

def run? : Write → Option HostFunction
  | define _ _ => none
  | input _ _ => none
  | host _ run => some run

def apply (store : Store) (env : Environment) : Write → Store
  | define name value => store.define env name value
  | input name value => store.bindInput env name value
  | host name run => store.defineHost env name run

/-- All writes are definitions, and some make a function known as well. -/
theorem apply_eq (store : Store) (env : Environment) (write : Write) :
    write.apply store env = { store with hosts := store.hosts ++ write.run?.toArray }.define env
      write.name (write.value store.hosts.size) := by
  cases write with
  | define name value => simp [apply, run?, Write.name, Write.value]
  | input name value => simp [apply, bindInput, inputName_eq, run?, Write.name, Write.value]
  | host name run => rfl

end Write

/-- What has been done to a store with the given number of scopes. Scopes are numbered in the order
in which they were opened. -/
inductive History : Nat → Type
  | start : History 1
  | root {count : Nat} (history : History count) : History (count + 1)
  | child {count : Nat} (history : History count) (parent : Fin count) : History (count + 1)
  | write {count : Nat} (history : History count) (scope : Fin count) (entry : Write) :
      History count

structure Outcome (count : Nat) where
  store : Store
  environments : Vector Environment count

namespace History

variable {count : Nat}

def run {count : Nat} : History count → Outcome count
  | start => ⟨.initial, #v[.root]⟩
  | root history =>
      let opened := history.run.store.addRoot
      ⟨opened.2, history.run.environments.push opened.1⟩
  | child history parent =>
      let opened := history.run.store.nest history.run.environments[parent] []
      ⟨opened.2, history.run.environments.push opened.1⟩
  | write history scope entry =>
      { history.run with
        store := entry.apply history.run.store history.run.environments[scope] }

/-! ## Reading a history -/

/-- A scope and those around it, the nearest first. -/
def chain {count : Nat} : History count → Nat → List Nat
  | start, scope => [scope]
  | @root count history, scope => if scope = count then [scope] else history.chain scope
  | @child count history parent, scope =>
      if scope = count then scope :: history.chain parent else history.chain scope
  | write history _ _, scope => history.chain scope

def hosts {count : Nat} : History count → List HostFunction
  | start => []
  | root history => history.hosts
  | child history _ => history.hosts
  | write history _ entry => history.hosts ++ entry.run?.toList

def writes {count : Nat} : History count → Nat → List (String × Value)
  | start, _ => []
  | root history, scope => history.writes scope
  | child history _, scope => history.writes scope
  | write history target entry, scope =>
      if scope = target then
        history.writes scope ++ [(entry.name, entry.value history.hosts.length)]
      else history.writes scope

theorem exists_chain_eq (history : History count) (scope : Nat) :
    ∃ outer, history.chain scope = scope :: outer := by
  induction history with
  | start => exact ⟨[], rfl⟩
  | root history induction =>
      rw [chain]
      split
      · exact ⟨[], rfl⟩
      · exact induction
  | child history parent induction =>
      rw [chain]
      split
      · exact ⟨_, rfl⟩
      · exact induction
  | write history target entry induction => exact induction

/-! ## What a run keeps -/

structure Matches (history : History count) (outcome : Outcome count) : Prop where
  size_eq : outcome.store.scopes.size = count
  scope_eq : ∀ number, outcome.store.scope number = Table.ofList (history.writes number)
  scopes_eq : ∀ scope : Fin count, outcome.environments[scope].scopes = history.chain scope
  hosts_eq : outcome.store.hosts.toList = history.hosts

namespace Matches

variable {history : History count} {outcome : Outcome count}

theorem scope_env (same : history.Matches outcome) (scope : Fin count) :
    outcome.environments[scope].scope = scope := by
  rcases history.exists_chain_eq scope with ⟨outer, chain⟩
  have scopes := same.scopes_eq scope
  rw [chain] at scopes
  exact (List.cons.inj scopes).1

/-- A scope that is opened was not written before. -/
theorem scope_push (same : history.Matches outcome) {after : Store}
    (opened : after.scopes = outcome.store.scopes.push []) (number : Nat) :
    after.scope number = Table.ofList (history.writes number) := by
  rw [← same.scope_eq, Store.scope_eq, opened, Array.getElem?_push]
  split
  · next new => rw [new, scope_eq_nil (Nat.le_refl _), Option.getD_some]
  · exact (Store.scope_eq _ _).symm

theorem scopes_push (same : history.Matches outcome) (env : Environment)
    (scope : Fin (count + 1)) :
    (outcome.environments.push env)[scope].scopes =
      if scope = count then env.scopes else history.chain scope := by
  rw [Fin.getElem_fin, Vector.getElem_push]
  by_cases old : (scope : Nat) < count
  · rw [dif_pos old, if_neg (Nat.ne_of_lt old)]
    exact same.scopes_eq ⟨scope, old⟩
  · have new : (scope : Nat) = count := by omega
    rw [dif_neg old, if_pos new]

theorem root (same : history.Matches outcome) :
    history.root.Matches ⟨outcome.store.addRoot.2,
      outcome.environments.push outcome.store.addRoot.1⟩ where
  size_eq := by simp [addRoot, same.size_eq]
  scope_eq := same.scope_push rfl
  scopes_eq scope := by
    rw [same.scopes_push, chain]
    split
    · next new =>
        rw [new]
        exact congrArg (fun number => [number]) same.size_eq
    · rfl
  hosts_eq := same.hosts_eq

theorem child (same : history.Matches outcome) (parent : Fin count) :
    (history.child parent).Matches ⟨(outcome.store.nest outcome.environments[parent] []).2,
      outcome.environments.push (outcome.store.nest outcome.environments[parent] []).1⟩ where
  size_eq := by simp [same.size_eq]
  scope_eq := same.scope_push rfl
  scopes_eq scope := by
    rw [same.scopes_push, chain]
    split
    · next new =>
        rw [new, ← same.scopes_eq]
        exact congrArg (· :: _) same.size_eq
    · rfl
  hosts_eq := same.hosts_eq

theorem write (same : history.Matches outcome) (target : Fin count) (entry : Write) :
    (history.write target entry).Matches
      { outcome with store := entry.apply outcome.store outcome.environments[target] } := by
  have known : outcome.store.hosts.size = history.hosts.length := by
    rw [← same.hosts_eq, Array.length_toList]
  rw [Write.apply_eq, known]
  refine ⟨(size_define ..).trans same.size_eq, ?_, same.scopes_eq, ?_⟩
  · intro number
    rw [scope_define, same.scope_env, writes]
    by_cases here : number = target
    · have inside : number < outcome.store.scopes.size := by
        rw [here, same.size_eq]
        exact target.isLt
      rw [if_pos ⟨here, inside⟩, if_pos here, Table.ofList, Table.insertAll_concat]
      exact congrArg _ (same.scope_eq number)
    · rw [if_neg fun both => here both.1, if_neg here]
      exact same.scope_eq number
  · simp [define, hosts, same.hosts_eq]

end Matches

theorem matches_run (history : History count) : history.Matches history.run := by
  induction history with
  | start =>
      refine ⟨rfl, ?_, ?_, rfl⟩
      · intro number
        rcases number with _ | number <;> rfl
      · intro scope
        rw [Fin.fin_one_eq_zero scope]
        rfl
  | root history induction => exact induction.root
  | child history parent induction => exact induction.child parent
  | write history target entry induction => exact induction.write target entry

/-! ## Looking names up -/

/-- A name that is looked up along a chain gets to a scope and finds it in none of the nearer
ones. -/
def Sees (writes : Nat → List (String × Value)) (chain : List Nat) (scope : Nat) (name : String) :
    Prop :=
  ∃ nearer farther, chain = nearer ++ scope :: farther ∧
    ∀ other ∈ nearer, name ∉ Table.keys (writes other)

/-- The value of the last write of a name to the nearest scope on a chain that it was written
to. -/
def Resolves (writes : Nat → List (String × Value)) (chain : List Nat) (name : String)
    (value : Value) : Prop :=
  ∃ scope, Sees writes chain scope name ∧
    ∃ earlier later, writes scope = earlier ++ (name, value) :: later ∧ name ∉ Table.keys later

theorem lookup?_run (history : History count) (scope : Fin count) (name : String) :
    history.run.store.lookup? history.run.environments[scope] name =
      (history.chain scope).findSome? fun number =>
        Table.lastWrite? name (history.writes number) := by
  rw [lookup?, history.matches_run.scopes_eq]
  refine congrArg (List.findSome? · _) (funext fun number => ?_)
  rw [history.matches_run.scope_eq, Table.get?_ofList]

theorem resolves_iff {writes : Nat → List (String × Value)} {chain : List Nat} {name : String}
    {value : Value} :
    chain.findSome? (fun number => Table.lastWrite? name (writes number)) = some value ↔
      Resolves writes chain name value := by
  rw [List.findSome?_eq_some_iff]
  constructor
  · rintro ⟨nearer, scope, farther, split, found, unwritten⟩
    refine ⟨scope, ⟨nearer, farther, split, ?_⟩, Table.lastWrite?_eq_some_iff.mp found⟩
    exact fun other member => Table.lastWrite?_eq_none_iff.mp (unwritten other member)
  · rintro ⟨scope, ⟨nearer, farther, split, unwritten⟩, last⟩
    refine ⟨nearer, scope, farther, split, Table.lastWrite?_eq_some_iff.mpr last, ?_⟩
    exact fun other member => Table.lastWrite?_eq_none_iff.mpr (unwritten other member)

/-! ## Looking names up after one more write -/

section

variable (history : History count) (target : Fin count) (entry : Write)

theorem lastWrite?_write (number : Nat) (name : String) :
    Table.lastWrite? name ((history.write target entry).writes number) =
      if number = target ∧ entry.name = name then some (entry.value history.hosts.length)
      else Table.lastWrite? name (history.writes number) := by
  rw [writes]
  by_cases here : number = target
  · rw [if_pos here, Table.lastWrite?_concat]
    simp only [here, true_and]
  · rw [if_neg here, if_neg fun both => here both.1]

theorem resolves_write {chain : List Nat} (sees : Sees history.writes chain target entry.name) :
    chain.findSome? (fun number =>
        Table.lastWrite? entry.name ((history.write target entry).writes number)) =
      some (entry.value history.hosts.length) := by
  rcases sees with ⟨nearer, farther, rfl, unwritten⟩
  induction nearer with
  | nil => rw [List.nil_append, List.findSome?_cons, lastWrite?_write, if_pos ⟨rfl, rfl⟩]
  | cons first nearer induction =>
      rw [List.forall_mem_cons] at unwritten
      rw [List.cons_append, List.findSome?_cons, lastWrite?_write]
      by_cases here : first = target
      · rw [if_pos ⟨here, rfl⟩]
      · rw [if_neg fun both => here both.1, Table.lastWrite?_eq_none_iff.mpr unwritten.1]
        exact induction unwritten.2

theorem findSome?_write {chain : List Nat} {name : String}
    (unseen : name = entry.name → ¬Sees history.writes chain target name) :
    chain.findSome? (fun number =>
        Table.lastWrite? name ((history.write target entry).writes number)) =
      chain.findSome? fun number => Table.lastWrite? name (history.writes number) := by
  induction chain with
  | nil => rfl
  | cons first rest induction =>
      -- The nearest scope is always seen, so it is not the one with the new write.
      have kept : ¬(first = target ∧ entry.name = name) := by
        rintro ⟨rfl, rfl⟩
        exact unseen rfl ⟨[], rest, rfl, List.forall_mem_nil _⟩
      rw [List.findSome?_cons, List.findSome?_cons, lastWrite?_write, if_neg kept]
      cases found : Table.lastWrite? name (history.writes first) with
      | some value => rfl
      | none =>
          apply induction
          rintro same ⟨nearer, farther, rfl, unwritten⟩
          refine unseen same ⟨first :: nearer, farther, rfl, ?_⟩
          exact List.forall_mem_cons.mpr ⟨Table.lastWrite?_eq_none_iff.mp found, unwritten⟩

end

/-- Environments show the record of all writes, whatever was done in whichever order. -/
theorem environments_record_writes (history : History count) (scope : Fin count) :
    let chain := history.chain scope
    let store := history.run.store
    let env := history.run.environments[scope]
    env.depth = chain.length ∧
    store.localNames env = (Table.keys (history.writes scope)).eraseDups ∧
    (∀ name,
      (∀ value, store.lookup? env name = some value ↔
        Resolves history.writes chain name value) ∧
      (store.lookup? env name = none ↔
        ∀ other ∈ chain, name ∉ Table.keys (history.writes other)) ∧
      store.contains env name = (store.lookup? env name).isSome) ∧
    (∀ number run, history.hosts[number]? = some run → store.host number = run) ∧
    ∀ target entry,
      let after := (history.write target entry).run
      after.environments[scope] = env ∧
      (Sees history.writes chain target entry.name →
        after.store.lookup? env entry.name = some (entry.value history.hosts.length)) ∧
      ∀ name, (name = entry.name → ¬Sees history.writes chain target name) →
        after.store.lookup? env name = store.lookup? env name := by
  intro chain store env
  have same := history.matches_run
  refine ⟨congrArg List.length (same.scopes_eq scope), ?names, ?lookups, ?hosts, ?writes⟩
  case names => rw [localNames, same.scope_env, same.scope_eq, Table.keys_ofList]
  case lookups =>
    intro name
    refine ⟨fun value => ?_, ?_, contains_eq_isSome ..⟩
    · rw [lookup?_run, resolves_iff]
    · rw [lookup?_run, List.findSome?_eq_none_iff]
      exact forall₂_congr fun _ _ => Table.lastWrite?_eq_none_iff
  case hosts =>
    intro number run known
    rw [← same.hosts_eq, Array.getElem?_toList] at known
    rw [host, Array.getD_eq_getD_getElem?, known, Option.getD_some]
  case writes =>
    intro target entry after
    refine ⟨rfl, fun sees => ?_, fun name unseen => ?_⟩
    · exact ((history.write target entry).lookup?_run scope _).trans
        (history.resolves_write target entry sees)
    · rw [lookup?_run]
      exact ((history.write target entry).lookup?_run scope _).trans
        (history.findSome?_write target entry unseen)

/-- An outer write that a scope opened earlier does not see, since it has an input of that name. -/
theorem environments_record_writes_shadowed :
    let run : HostFunction := fun args => .ok (.list args)
    let inner : History 2 := .write (.child .start 0) 1 (.input "a" (.string "inner"))
    let history : History 2 := inner.write 0 (.host "f" run)
    let entry : Write := .input "$a" (.string "outer")
    let after := (history.write 0 entry).run
    let outside := history.run.environments[(0 : Fin 2)]
    let inside := history.run.environments[(1 : Fin 2)]
    (history.hosts[0]? = some run ∧ history.run.store.host 0 = run) ∧
      (Sees history.writes (history.chain 0) 0 "$a" ∧
        after.store.lookup? outside "$a" = some (.string "outer")) ∧
      ¬Sees history.writes (history.chain 1) 0 "$a" ∧
        after.store.lookup? inside "$a" = history.run.store.lookup? inside "$a" := by
  intro run inner history entry after outside inside
  have sees : Sees history.writes (history.chain 0) 0 "$a" :=
    ⟨[], [], rfl, List.forall_mem_nil _⟩
  have shadowed : ¬Sees history.writes (history.chain 1) 0 "$a" := by
    rintro ⟨nearer, farther, split, unwritten⟩
    cases nearer with
    | nil => cases split
    | cons first nearer =>
        cases (List.cons.inj split).1
        exact unwritten 1 List.mem_cons_self (by decide)
  rcases environments_record_writes history 0 with ⟨_, _, _, hosts, writes⟩
  rcases environments_record_writes history 1 with ⟨_, _, _, _, innerWrites⟩
  refine ⟨⟨rfl, hosts 0 run rfl⟩, ⟨sees, ?_⟩, shadowed, ?_⟩
  · exact (writes 0 entry).2.1 sees
  · exact (innerWrites 0 entry).2.2 "$a" fun _ => shadowed

end History

end Store

end RuleLisp
