import RuleLisp.Proofs.Session

/-! # Nested definitions

A function stands in the scope that it was defined in, wherever it is called from. So a scope is as
deep as the definitions around it in the program, however deep the calls go.
-/

namespace RuleLisp

namespace Expr

mutual

/-- How deep definitions stand inside the bodies of definitions. -/
def nesting : Expr → Nat
  | .atom _ => 0
  | .list items => rowNesting items
  | .object spread properties => max (baseNesting spread) (propertyNesting properties)
  | .function _ _ body => body.nesting + 1

def rowNesting : List Expr → Nat
  | [] => 0
  | item :: rest => max item.nesting (rowNesting rest)

def baseNesting : Option Expr → Nat
  | none => 0
  | some base => base.nesting

def propertyNesting : List (String × Expr) → Nat
  | [] => 0
  | (_, value) :: rest => max value.nesting (propertyNesting rest)

end

theorem nesting_le_rowNesting {items : List Expr} {item : Expr} (member : item ∈ items) :
    item.nesting ≤ rowNesting items := by
  induction items with
  | nil => cases member
  | cons first rest induction =>
      rw [rowNesting]
      rcases List.mem_cons.mp member with same | later
      · subst same
        exact Nat.le_max_left _ _
      · exact (induction later).trans (Nat.le_max_right _ _)

theorem propertyNesting_eq (properties : List (String × Expr)) :
    propertyNesting properties = rowNesting (properties.map Prod.snd) := by
  induction properties with
  | nil => rfl
  | cons property rest induction => rw [propertyNesting, List.map_cons, rowNesting, induction]

theorem nesting_le_of_mem_parts {expr part : Expr} (member : part ∈ expr.parts) :
    part.nesting ≤ expr.nesting := by
  cases expr with
  | atom | function => cases member
  | list items =>
      rw [nesting]
      exact nesting_le_rowNesting member
  | object spread properties =>
      rw [nesting, propertyNesting_eq]
      rcases List.mem_append.mp member with base | value
      · cases Option.mem_toList.mp base
        exact Nat.le_max_left _ _
      · exact (nesting_le_rowNesting value).trans (Nat.le_max_right _ _)

end Expr

def Allowance.upTo (bound : Nat) : Allowance where
  Allows depth expr := depth + expr.nesting ≤ bound
  parts := by
    intro depth expr allowed part member
    have inner := Expr.nesting_le_of_mem_parts member
    omega
  body := by
    intro depth name params body allowed
    rw [Expr.nesting] at allowed
    omega

def Function.depth : Function → Nat
  | .closure definition => definition.env.depth
  | .host _ _ => 0

theorem Lineage.Knows.depth_le {bound : Nat} {lineage : Lineage} {callee : Function}
    (known : lineage.Knows (.upTo bound) callee) : callee.depth ≤ bound := by
  cases callee with
  | closure definition =>
      have allowed : definition.env.depth + 1 + definition.body.nesting ≤ bound := known.2
      rw [Function.depth]
      omega
  | host number name => exact Nat.zero_le bound

def Value.DepthAtMost (bound : Nat) (value : Value) : Prop :=
  value.AllFunctions fun callee => callee.depth ≤ bound

theorem Value.IsWellFormed.depthAtMost {bound : Nat} {lineage : Lineage} {value : Value}
    (wellFormed : value.WellFormedIn (Lineage.Knows (.upTo bound)) lineage) :
    value.DepthAtMost bound :=
  wellFormed.functions.mono fun _ => Lineage.Knows.depth_le

def Store.DepthAtMost (bound : Nat) (store : Store) : Prop :=
  ∀ number, ∀ binding ∈ store.scope number, binding.2.DepthAtMost bound

theorem Store.IsWellFormed.depthAtMost {bound : Nat} {lineage : Lineage} {store : Store}
    (wellFormed : store.IsWellFormed (.upTo bound) lineage) : store.DepthAtMost bound :=
  fun number binding member => (wellFormed.values number binding member).depthAtMost

/-- No environment is deeper than those of the host by more than definitions nest in its programs,
at any moment of any run. -/
theorem Session.scopes_bounded_by_nesting {outermost nested : Nat} {session : Session}
    (reached : session.Reached (fun env => env.depth ≤ outermost)
      fun expr => expr.nesting ≤ nested) :
    (∀ env ∈ session.environments, env.depth ≤ outermost) ∧
    session.store.DepthAtMost (outermost + nested) ∧
    (∀ value ∈ session.values, value.DepthAtMost (outermost + nested)) ∧
    ∀ task, session.Asks (fun expr => expr.nesting ≤ nested) task → ∀ limit remaining,
      let ran := (task.traced limit remaining).runOn [] session.store
      (ran.1, ran.2.2) = (task.within limit remaining).runOn session.store ∧
      ∀ moment ∈ ran.2.1, moment.env.depth ≤ outermost + nested ∧
        moment.store.DepthAtMost (outermost + nested) ∧
        ∀ value ∈ moment.result, value.DepthAtMost (outermost + nested) := by
  have fits : ∀ (env : Environment) (expr : Expr), env.depth ≤ outermost → expr.nesting ≤ nested →
      (Allowance.upTo (outermost + nested)).Allows env.depth expr :=
    fun _ _ => Nat.add_le_add
  rcases reached.exists_isWellFormed fits with ⟨lineage, wellFormed⟩
  refine ⟨wellFormed.scopes, wellFormed.store.depthAtMost, ?_, ?_⟩
  · intro value member
    exact (wellFormed.values value member).depthAtMost
  · intro task asked limit remaining ran
    refine ⟨Task.runOn_traced limit remaining task [] session.store, ?_⟩
    rcases wellFormed.moments fits asked limit remaining with ⟨later, _, moments⟩
    intro moment member
    rcases moments moment member with ⟨between, _, momentWellFormed⟩
    refine ⟨?_, momentWellFormed.store.depthAtMost, ?_⟩
    · have allowed : moment.env.depth + moment.expr.nesting ≤ outermost + nested :=
        momentWellFormed.expr
      omega
    · intro value present
      exact (momentWellFormed.result value present).depthAtMost

/-- A function that calls itself once for each item of a list opens a scope for each call, and all
of them stand directly in the scope of the host. -/
theorem Session.scopes_bounded_by_nesting_recursive :
    let items : Expr := .atom (.symbol "items")
    let rest : Expr := .list [.atom (.symbol "cdr"), items]
    let done : Expr := .list [.atom (.symbol "=="), items, .list [.atom (.symbol "list")]]
    let walk : Expr := .function "walk" ["items"] (.list [.atom (.symbol "if"), done,
      .atom (.symbol "walk"), .list [.atom (.symbol "walk"), rest]])
    let letters : Expr := .list [.atom (.symbol "list"), .atom (.string "a"), .atom (.string "b"),
      .atom (.string "c")]
    let session := initial.after (((Task.expr .root walk).within 9 9).runOn .initial)
    let task : Task := .expr .root (.list [.atom (.symbol "walk"), letters])
    let ran := (task.traced 9 9).runOn [] session.store
    walk.nesting = 1 ∧ ran.2.2.scopes.size = 5 ∧
      session.Reached (fun env => env.depth ≤ 1) (fun expr => expr.nesting ≤ 1) ∧
      ran.2.1.any (fun moment => moment.env.scopes = [4, 0]) ∧
      ∀ moment ∈ ran.2.1, moment.env.depth ≤ 2 := by
  intro items rest done walk letters session task ran
  have defines : initial.Asks (fun expr => expr.nesting ≤ 1) (.expr .root walk) :=
    ⟨List.mem_cons_self, by decide⟩
  have reached : session.Reached (fun env => env.depth ≤ 1) fun expr => expr.nesting ≤ 1 :=
    .perform (.start (by decide)) defines 9 9
  have asked : session.Asks (fun expr => expr.nesting ≤ 1) task :=
    ⟨List.mem_cons_self, by decide⟩
  have bounded := (scopes_bounded_by_nesting reached).2.2.2 task asked 9 9
  refine ⟨by decide, by decide +kernel, reached, by decide +kernel, ?_⟩
  intro moment member
  exact (bounded.2 moment member).1

end RuleLisp
