import RuleLisp.Proofs.Eval.Correspondence
import RuleLisp.Proofs.Eval.Depth
import RuleLisp.Proofs.Eval.Frame
import RuleLisp.Proofs.Store.Contents

/-! # Calling a function again

A call leaves its scopes, its functions and its lines behind in the store. The next call of the same
function gets other numbers for its own, and cannot tell the store from the one before.
-/

namespace RuleLisp

/-! ## Well-formed stores -/

inductive Function.Renumbers : Function → Function → Prop
  | closure {identity otherIdentity : Nat} {name : String} {params : List String} {body : Expr}
      {env other : Environment} :
      Renumbers (.closure ⟨identity, name, params, body, env⟩)
        (.closure ⟨otherIdentity, name, params, body, other⟩)
  | host (number : Nat) (name : String) : Renumbers (.host number name) (.host number name)

/-- A function of the host whose answer does not depend on the numbers inside of functions, and has
no functions in it but those that are known and those that it was given. -/
def HostFunction.IsUniform (known : Function → Prop) (run : HostFunction) : Prop :=
  ∀ functions : FunctionPairing, (∀ callee, known callee → functions.Paired callee callee) →
    (∀ callee other, functions.Paired callee other → callee.Renumbers other) →
    ∀ args others, List.Forall₂ (Value.Like functions) args others →
      OutcomeRel (Value.Like functions) (run args) (run others)

theorem HostFunction.IsUniform.mono {known more : Function → Prop} {run : HostFunction}
    (uniform : run.IsUniform known) (weaker : ∀ callee, known callee → more callee) :
    run.IsUniform more := by
  intro functions paired
  exact uniform functions fun callee known => paired callee (weaker callee known)

namespace Store

/-- The number of a function, and those of the scopes around it, have been given out. -/
def Knows (store : Store) : Function → Prop :=
  Function.FromHostOr fun definition => definition.identity < store.closures ∧
    ∀ scope ∈ definition.env.scopes, scope < store.scopes.size

/-- A store without functions from elsewhere. -/
abbrev IsClosed (store : Store) : Prop :=
  store.Holds (Value.AllFunctions store.Knows) (HostFunction.IsUniform store.Knows)

namespace IsClosed

variable {store after : Store} (closed : store.IsClosed)

include closed

theorem of_scopes_eq (scopes : after.scopes = store.scopes)
    (closures : store.closures ≤ after.closures) (hosts : after.hosts = store.hosts) :
    after.IsClosed := by
  have knows : ∀ callee, store.Knows callee → after.Knows callee := by
    intro callee known
    refine known.mono ?_
    intro definition given
    refine ⟨Nat.lt_of_lt_of_le given.1 closures, ?_⟩
    rw [scopes]
    exact given.2
  have widened :
      store.Holds (Value.AllFunctions after.Knows) (HostFunction.IsUniform after.Knows) :=
    closed.mono (fun _ all => all.mono knows) fun _ uniform => uniform.mono knows
  apply widened.of_scopes_eq scopes
  rw [hosts]
  exact widened.hosts

theorem define (env : Environment) (name : String) {value : Value}
    (all : value.AllFunctions store.Knows) : (store.define env name value).IsClosed := by
  have knows : (store.define env name value).Knows = store.Knows := by
    simp [Knows, Store.define]
  rw [IsClosed, knows]
  exact Holds.define closed env name all

theorem defineClosure {env : Environment}
    (known : ∀ scope ∈ env.scopes, scope < store.scopes.size) (name : String)
    (params : List String) (body : Expr) :
    (store.defineClosure env name params body).IsClosed := by
  have counted : IsClosed { store with closures := store.closures + 1 } :=
    closed.of_scopes_eq rfl (Nat.le_succ _) rfl
  exact counted.define env name (.function ⟨Nat.lt_succ_self _, known⟩)

theorem defineHost (env : Environment) (name : String) {run : HostFunction}
    (uniform : run.IsUniform store.Knows) : (store.defineHost env name run).IsClosed := by
  have hosted : IsClosed { store with hosts := store.hosts.push run } := closed.pushHost uniform
  exact hosted.define env name (.function trivial)

end IsClosed

end Store

/-! ## A store and a later one -/

def Numbering.keeping {first later : Nat} (le : first ≤ later) : Numbering where
  old number other := number = other ∧ number < first
  first := first
  otherFirst := later
  bounded := by
    intro number other old
    omega
  unique := by
    intro number other second otherSecond old otherOld
    omega

namespace Correspondence

variable {store later : Store} (extended : store.Extends later) (grown : store.Grows later)

def onward : Correspondence where
  scopes := .keeping extended.size_le
  closures := .keeping grown.closures
  hosts number other := number = other
  hosts_unique := by
    intro number other second otherSecond same otherSame
    rw [same, otherSame]
  printed := store.printed
  otherPrinted := later.printed

theorem pairs_onward {callee : Function} (known : store.Knows callee) :
    (onward extended grown).PairsFunction (fun _ => True) callee callee := by
  cases callee with
  | closure definition =>
      have identities : (onward extended grown).closures.Pairs definition.identity
          definition.identity := .inl ⟨rfl, known.1⟩
      apply PairsFunction.closure identities fun _ _ => trivial
      exact List.forall₂_same.mpr fun scope member => .inl ⟨rfl, known.2 scope member⟩
  | host number name => exact .host name rfl

theorem like_onward {value : Value} (all : value.AllFunctions store.Knows) :
    Value.Like ((onward extended grown).functions fun _ => True) value value :=
  all.like fun _ => pairs_onward extended grown

theorem renumbers_onward {callee other : Function}
    (paired : (onward extended grown).PairsFunction (fun _ => True) callee other) :
    callee.Renumbers other := by
  cases paired with
  | closure => exact .closure
  | host name same =>
      cases same
      exact .host _ name

theorem host_onward (closed : store.IsClosed) (number : Nat) {args others : List Value}
    (alike : List.Forall₂ (Value.Like ((onward extended grown).functions fun _ => True)) args
      others) :
    OutcomeRel (Value.Like ((onward extended grown).functions fun _ => True))
      (store.host number args) (store.host number others) := by
  unfold Store.host
  rw [Array.getD_eq_getD_getElem?]
  cases found : store.hosts[number]? with
  | none => exact .ok .null
  | some run =>
      apply closed.hosts run (Array.mem_of_getElem? found) _ _ _ args others alike
      · intro callee known
        exact pairs_onward extended grown known
      · intro callee other paired
        exact renumbers_onward extended grown paired

theorem holds_onward (closed : store.IsClosed) :
    (onward extended grown).Holds (fun _ => True) store later where
  scopes := ⟨Nat.le_refl _, Nat.add_comm ..⟩
  closures := ⟨Nat.le_refl _, Nat.add_comm ..⟩
  printed := ⟨#[], Array.append_empty.symm, Array.append_empty.symm⟩
  host := by
    intro number other args others same alike
    cases same
    rw [Store.host, Store.host, grown.hosts]
    exact host_onward extended grown closed number alike
  get? := by
    intro number other name pairs _
    rcases pairs with ⟨rfl, known⟩ | fresh
    · rw [extended.scope_eq number known]
      cases found : Table.get? name (store.scope number) with
      | none => exact .none
      | some value =>
          have bound := Table.mem_of_get? found
          exact .some (like_onward extended grown (closed.values number _ bound))
    · rw [Store.scope_eq_nil fresh.le, Store.scope_eq_nil fresh.otherLe]
      exact .none

end Correspondence

/-! ## The second call -/

/-- What has happened since does not matter to a call, as long as it changed no scope. -/
theorem Eval.call_later (limit remaining : Nat) {store later : Store} (closed : store.IsClosed)
    (extended : store.Extends later) (grown : store.Grows later) {callee : Function}
    (known : store.Knows callee) {args : List Value}
    (argsKnown : ∀ arg ∈ args, arg.AllFunctions store.Knows) :
    let ran := (call (within limit remaining) callee args).runOn store
    let laterRan := (call (within limit remaining) callee args).runOn later
    OutcomeRel Value.Resembles ran.1 laterRan.1 ∧
      ∃ lines, ran.2.printed = store.printed ++ lines ∧
        laterRan.2.printed = later.printed ++ lines := by
  have paired := Correspondence.pairs_onward extended grown known
  have alike := List.forall₂_same.mpr fun arg member =>
    Correspondence.like_onward extended grown (argsKnown arg member)
  have start := Correspondence.holds_onward extended grown closed
  rcases (respects_within limit remaining).call paired alike store later start with
    ⟨outcomes, holds⟩
  exact ⟨outcomes.mono fun _ _ alike => alike.resembles, holds.printed⟩

namespace Task

/-- A function that is called twice in a row, at any depth, gives the same error or values that
resemble each other, and prints the same lines. -/
theorem calls_carry_no_state (limit depth : Nat) {store : Store} (closed : store.IsClosed)
    {callee : Function} (known : store.Knows callee) {args : List Value}
    (argsKnown : ∀ arg ∈ args, arg.AllFunctions store.Knows) :
    let task := (Task.call callee args).counted limit
    let first := task.runAt depth store
    let second := task.runAt first.2.1 first.2.2
    OutcomeRel Value.Resembles first.1 second.1 ∧
      ∃ lines, first.2.2.printed = store.printed ++ lines ∧
        second.2.2.printed = first.2.2.printed ++ lines := by
  simp only [runAt_counted, Task.within]
  have extended := (Eval.isLocal_within limit (limit - depth)).call callee args store
  have grown := (Eval.isGrowing_within limit (limit - depth)).call callee args store
  exact Eval.call_later limit (limit - depth) closed extended grown known argsKnown

/-- A function that defines another one, prints through a function of the host that it is given,
and then overwrites its own parameter. -/
theorem calls_carry_no_state_shadowing :
    let last : HostFunction := fun args => .ok (args.getLast?.getD .null)
    let inner : Expr := .function "g" ["x"] (.list [.atom (.symbol "h"), .atom (.symbol "x")])
    let print : Expr :=
      .list [.atom (.symbol "print"), .list [.atom (.symbol "g"), .atom (.string "a")]]
    let assign : Expr := .list [.atom (.symbol "set"), .atom (.symbol "h"), .atom (.symbol "g")]
    let body : Expr := .list [.atom (.symbol "list"), inner, print, assign]
    let store := (Store.initial.defineHost .root "last" last).defineClosure .root "f" ["h"] body
    let callee : Function := .closure ⟨0, "f", ["h"], body, .root⟩
    let task := (Task.call callee [.function (.host 0 "last")]).counted 7
    let first := task.runAt 1 store
    let second := task.runAt first.2.1 first.2.2
    store.IsClosed ∧ store.Knows callee ∧ OutcomeRel Value.Resembles first.1 second.1 ∧
      first.1.toOption.map Value.render = some "(null \"a\" <function g>)" ∧
      first.2.2.printed = #["a"] ∧ second.2.2.printed = #["a", "a"] ∧
      store.closures = 1 ∧ first.2.2.closures = 2 ∧ second.2.2.closures = 3 := by
  intro last inner print assign body store callee
  have uniform : last.IsUniform Store.initial.Knows := by
    intro functions _ _ args others alike
    exact .ok (Value.Like.getD (Value.getLast?_like alike))
  have rooted : ∀ scope ∈ Environment.root.scopes, scope < 1 := by decide
  have initial : Store.initial.IsClosed := Store.holds_initial
  have closed : store.IsClosed :=
    (initial.defineHost .root "last" uniform).defineClosure rooted "f" ["h"] body
  have known : store.Knows callee := ⟨Nat.zero_lt_one, rooted⟩
  have argsKnown : ∀ arg ∈ [Value.function (.host 0 "last")], arg.AllFunctions store.Knows :=
    List.forall_mem_singleton.mpr (.function trivial)
  have twice := calls_carry_no_state 7 1 closed known argsKnown
  exact ⟨closed, known, twice.1, by decide +kernel⟩

end Task

end RuleLisp
