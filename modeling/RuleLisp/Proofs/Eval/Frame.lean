import RuleLisp.Proofs.Eval.Invariant

/-! # What evaluation writes

Names are looked up through all the scopes of an environment, but only the nearest scope is ever
written. Evaluating an expression changes no scope around it, and adds or changes only the names
that are written in the expression itself. Calling a function changes no scope at all that was
there before.
-/

namespace RuleLisp

namespace Store

/-! ## Frames -/

structure Extends (before after : Store) : Prop where
  size_le : before.scopes.size ≤ after.scopes.size
  scope_eq : ∀ number < before.scopes.size, after.scope number = before.scope number

/-- Only one scope has changed, and in it only names of the given kind. -/
structure Frame (scope : Nat) (writes : String → Prop) (before after : Store) : Prop where
  size_le : before.scopes.size ≤ after.scopes.size
  others : ∀ number < before.scopes.size, number ≠ scope → after.scope number = before.scope number
  names : Table.keys (before.scope scope) <+: Table.keys (after.scope scope)
  values : ∀ name, ¬writes name →
    Table.get? name (after.scope scope) = Table.get? name (before.scope scope)

variable {scope : Nat} {writes : String → Prop} {first second third : Store}

theorem Frame.refl (store : Store) : Frame scope writes store store :=
  ⟨Nat.le_refl _, fun _ _ _ => rfl, List.prefix_rfl, fun _ _ => rfl⟩

theorem Frame.trans (early : Frame scope writes first second)
    (late : Frame scope writes second third) : Frame scope writes first third where
  size_le := Nat.le_trans early.size_le late.size_le
  others number bound different := by
    rw [late.others number (Nat.lt_of_lt_of_le bound early.size_le) different]
    exact early.others number bound different
  names := early.names.trans late.names
  values name unwritten := by
    rw [late.values name unwritten]
    exact early.values name unwritten

theorem Frame.mono {more : String → Prop} (frame : Frame scope writes first second)
    (weaker : ∀ name, writes name → more name) : Frame scope more first second where
  size_le := frame.size_le
  others := frame.others
  names := frame.names
  values name unwritten := frame.values name fun written => unwritten (weaker name written)

theorem Extends.refl (store : Store) : Extends store store :=
  ⟨Nat.le_refl _, fun _ _ => rfl⟩

theorem Extends.frame (extension : Extends first second) (bound : scope < first.scopes.size) :
    Frame scope writes first second where
  size_le := extension.size_le
  others number bound _ := extension.scope_eq number bound
  names := extension.scope_eq scope bound ▸ List.prefix_rfl
  values name _ := congrArg (Table.get? name) (extension.scope_eq scope bound)

theorem scope_congr (same : second.scopes = first.scopes) (number : Nat) :
    second.scope number = first.scope number := by
  rw [Store.scope, Store.scope, same]

theorem Extends.of_scopes_eq (same : second.scopes = first.scopes) : Extends first second where
  size_le := Nat.le_of_eq (congrArg Array.size same).symm
  scope_eq number _ := scope_congr same number

theorem Frame.of_scopes_eq (same : second.scopes = first.scopes) :
    Frame scope writes first second where
  size_le := Nat.le_of_eq (congrArg Array.size same).symm
  others number _ _ := scope_congr same number
  names := scope_congr same scope ▸ List.prefix_rfl
  values name _ := congrArg (Table.get? name) (scope_congr same scope)

theorem frame_define {name : String} (written : writes name) (value : Value) (store : Store)
    (env : Environment) : Frame env.scope writes store (store.define env name value) where
  size_le := Nat.le_of_eq (store.size_define env name value).symm
  others number _ different := by
    rw [scope_define, if_neg fun both => different both.1]
  names := by
    rw [scope_define]
    split
    · rw [Table.keys_insert]
      split
      · exact List.prefix_rfl
      · exact List.prefix_append ..
    · exact List.prefix_rfl
  values other unwritten := by
    rw [scope_define]
    split
    · have different : name ≠ other := by
        rintro rfl
        exact unwritten written
      rw [Table.get?_insert, if_neg different]
    · rfl

theorem frame_defineClosure {name : String} (written : writes name) (params : List String)
    (body : Expr) (store : Store) (env : Environment) :
    Frame env.scope writes store (store.defineClosure env name params body) := by
  have counted : Frame env.scope writes store { store with closures := store.closures + 1 } :=
    .of_scopes_eq rfl
  exact counted.trans (frame_define written _ _ env)

end Store

/-! ## Evaluation -/

/-- An evaluator that writes nothing but the names in an expression to the nearest scope. -/
def Evaluator.IsLocal (eval : Evaluator) : Prop :=
  ∀ expr env store, env.scope < store.scopes.size →
    Store.Frame env.scope (· ∈ expr.written) store ((eval expr env).runOn store).2

namespace Evaluator.IsLocal

variable {eval : Evaluator} (isLocal : eval.IsLocal)

include isLocal

/-- The body of a function writes to the scope of the call, which was not there before. -/
theorem call (callee : Function) (args : List Value) (store : Store) :
    store.Extends ((Eval.call eval callee args).runOn store).2 := by
  cases callee with
  | host number name =>
      rw [Eval.runOn_call_host]
      exact .of_scopes_eq rfl
  | closure definition =>
      let bindings := Table.ofList (Eval.parameters definition.params args)
      let inner := definition.env.nest store.scopes.size
      let nested := (store.nest definition.env bindings).2
      change store.Extends ((eval definition.body inner).runOn nested).2
      have size : nested.scopes.size = store.scopes.size + 1 := store.size_nest ..
      have frame := isLocal definition.body inner nested (size ▸ Nat.lt_succ_self _)
      refine ⟨?_, ?_⟩
      · exact Nat.le_trans (size ▸ Nat.le_succ _) frame.size_le
      · intro number known
        have different : number ≠ store.scopes.size := Nat.ne_of_lt known
        rw [frame.others number (size ▸ Nat.lt_succ_of_lt known) different]
        exact (store.scope_nest ..).trans (if_neg different)

/-- The frame since the start is kept as long as only names of the given kind are written. -/
theorem keeps (env : Environment) (writes : String → Prop) {start : Store}
    (known : env.scope < start.scopes.size) :
    eval.Keeps env writes (Store.Frame env.scope writes start) where
  define written frame := frame.trans (Store.frame_define written _ _ env)
  defineClosure written frame := frame.trans (Store.frame_defineClosure written _ _ _ env)
  print frame := frame.trans (.of_scopes_eq rfl)
  call := by
    intro callee args store frame
    have still : env.scope < store.scopes.size := Nat.lt_of_lt_of_le known frame.size_le
    exact frame.trans ((isLocal.call callee args store).frame still)
  eval := by
    intro expr store written frame
    have still : env.scope < store.scopes.size := Nat.lt_of_lt_of_le known frame.size_le
    exact frame.trans ((isLocal expr env store still).mono written)

theorem step : Evaluator.IsLocal (Eval.step eval) := by
  intro expr env store known
  exact (isLocal.keeps env (· ∈ expr.written) known).step (fun _ member => member) (.refl store)

end Evaluator.IsLocal

namespace Eval

theorem isLocal_within (limit remaining : Nat) : Evaluator.IsLocal (within limit remaining) := by
  induction remaining with
  | zero =>
      intro expr env store _
      exact .refl store
  | succ remaining induction => exact induction.step

/-- Evaluation reads through the scopes of an environment and never writes through them, and calls
write to no scope that was there before. -/
theorem writes_only_nearest_scope (limit remaining : Nat) (store : Store) :
    (∀ expr env, env.scope < store.scopes.size →
      let after := ((within limit remaining expr env).runOn store).2
      (∀ number < store.scopes.size, number ≠ env.scope →
        after.scope number = store.scope number) ∧
      store.localNames env <+: after.localNames env ∧
      ∀ name ∉ expr.written,
        Table.get? name (after.scope env.scope) = Table.get? name (store.scope env.scope)) ∧
    ∀ callee args, ∀ number < store.scopes.size,
      ((call (within limit remaining) callee args).runOn store).2.scope number =
        store.scope number := by
  have isLocal := isLocal_within limit remaining
  refine ⟨?_, ?_⟩
  · intro expr env known
    have frame := isLocal expr env store known
    exact ⟨frame.others, frame.names, frame.values⟩
  · intro callee args
    exact (isLocal.call callee args store).scope_eq

/-- A function that assigns to its parameter is called, with an assignment for its argument. -/
theorem writes_only_nearest_scope_nested :
    let body : Expr := .list [.atom (.symbol "set"), .atom (.symbol "a"), .atom (.string "c")]
    let arg : Expr := .list [.atom (.symbol "set"), .atom (.symbol "b"), .atom (.symbol "a")]
    let callee : Function := .closure ⟨0, "f", ["a"], body, .root⟩
    let store : Store := ⟨#[[("f", .function callee)], [("a", .null)]], 1, #[], #[]⟩
    let env : Environment := ⟨1, [0]⟩
    let after := ((within 4 4 (.list [.atom (.symbol "f"), arg]) env).runOn store).2
    env.scope < store.scopes.size ∧ after.scopes.size = 3 ∧
      after.localNames env = ["a", "b"] ∧ after.scope 0 = store.scope 0 ∧
      Table.get? "a" (after.scope 1) = Table.get? "a" (store.scope 1) := by
  intro body arg callee store env after
  have known : env.scope < store.scopes.size := by decide
  rcases (writes_only_nearest_scope 4 4 store).1 (.list [.atom (.symbol "f"), arg]) env known with
    ⟨others, _, values⟩
  exact ⟨known, by decide, by decide, others 0 (by decide) (by decide), values "a" (by decide)⟩

end Eval

end RuleLisp
