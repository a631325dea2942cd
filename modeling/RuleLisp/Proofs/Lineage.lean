import RuleLisp.Proofs.Eval.Upholds

/-! # The lineage of scopes

A scope stays inside the scope that it was opened in, and that one is older. The environments of a
session agree on this: the scopes of an environment are those around its first one.
-/

namespace RuleLisp

/-- The scope around each scope, if there is one. -/
structure Lineage where
  parents : List (Option Nat)
  older : ∀ {scope parent : Nat}, parents[scope]? = some (some parent) → parent < scope

namespace Lineage

instance : Preorder Lineage where
  le lineage later := lineage.parents <+: later.parents
  le_refl lineage := List.prefix_refl lineage.parents
  le_trans _ _ _ := List.IsPrefix.trans

def single : Lineage where
  parents := [none]
  older := by
    intro scope parent inside
    cases scope <;> cases inside

def extend (lineage : Lineage) (parent : Option Nat)
    (known : ∀ number ∈ parent, number < lineage.parents.length) : Lineage where
  parents := lineage.parents ++ [parent]
  older := by
    intro scope number inside
    by_cases old : scope < lineage.parents.length
    · rw [List.getElem?_append_left old] at inside
      exact lineage.older inside
    · have new : scope = lineage.parents.length := by
        have bounded := (List.getElem?_eq_some_iff.mp inside).1
        simp only [List.length_append, List.length_singleton] at bounded
        omega
      subst new
      rw [List.getElem?_concat_length] at inside
      cases inside
      exact known number rfl

theorem le_extend (lineage : Lineage) (parent : Option Nat)
    (known : ∀ number ∈ parent, number < lineage.parents.length) :
    lineage ≤ lineage.extend parent known :=
  List.prefix_append lineage.parents [parent]

theorem parent_mono {lineage later : Lineage} (le : lineage ≤ later) {scope : Nat}
    {parent : Option Nat} (inside : lineage.parents[scope]? = some parent) :
    later.parents[scope]? = some parent := by
  rcases le with ⟨added, extended⟩
  rw [← extended, List.getElem?_append_left (List.getElem?_eq_some_iff.mp inside).1, inside]

/-! ## Lines -/

/-- A scope and the scopes around it, out to one that is inside no other. -/
inductive Line (lineage : Lineage) : List Nat → Prop
  | root {scope : Nat} (alone : lineage.parents[scope]? = some none) : Line lineage [scope]
  | inside {scope parent : Nat} {outer : List Nat}
      (within : lineage.parents[scope]? = some (some parent))
      (line : Line lineage (parent :: outer)) : Line lineage (scope :: parent :: outer)

namespace Line

variable {lineage later : Lineage} {scope : Nat} {scopes outer others : List Nat}

theorem mono (le : lineage ≤ later) (line : lineage.Line scopes) : later.Line scopes := by
  induction line with
  | root alone => exact .root (parent_mono le alone)
  | inside within _ induction => exact .inside (parent_mono le within) induction

/-- Scopes are opened inside scopes that exist. -/
theorem lt_length (line : lineage.Line scopes) :
    ∀ scope ∈ scopes, scope < lineage.parents.length := by
  induction line with
  | root alone => exact List.forall_mem_singleton.mpr (List.getElem?_eq_some_iff.mp alone).1
  | inside within _ induction =>
      exact List.forall_mem_cons.mpr ⟨(List.getElem?_eq_some_iff.mp within).1, induction⟩

/-- The scopes around a scope are determined by it. -/
theorem unique (line : lineage.Line (scope :: outer)) (other : lineage.Line (scope :: others)) :
    outer = others := by
  induction outer generalizing scope others with
  | nil =>
      cases line with
      | root alone =>
          cases other with
          | root => rfl
          | inside within => cases alone.symm.trans within
  | cons parent outer induction =>
      cases line with
      | inside within line =>
          cases other with
          | root alone => cases alone.symm.trans within
          | inside otherWithin otherLine =>
              cases within.symm.trans otherWithin
              rw [induction line otherLine]

theorem environment_unique {env other : Environment} (line : lineage.Line env.scopes)
    (otherLine : lineage.Line other.scopes) (same : env.scope = other.scope) : env = other := by
  rcases env with ⟨scope, outer⟩
  rcases other with ⟨_, others⟩
  cases same
  have around : outer = others := line.unique otherLine
  rw [around]

/-- Each scope is newer than the scopes around it. -/
theorem pairwise (line : lineage.Line scopes) : scopes.Pairwise (· > ·) := by
  induction line with
  | root => exact List.pairwise_singleton _ _
  | inside within _ induction =>
      have newer := lineage.older within
      refine List.Pairwise.cons (List.forall_mem_cons.mpr ⟨newer, ?_⟩) induction
      intro number member
      exact (List.rel_of_pairwise_cons induction member).trans newer

theorem length_le (line : lineage.Line (scope :: outer)) : outer.length ≤ scope := by
  induction outer generalizing scope with
  | nil => exact Nat.zero_le scope
  | cons parent outer induction =>
      cases line with
      | inside within line =>
          have newer := lineage.older within
          have shorter := induction line
          rw [List.length_cons]
          omega

theorem depth_le {env : Environment} (line : lineage.Line env.scopes) :
    env.depth ≤ lineage.parents.length := by
  have shorter := line.length_le
  have known := line.lt_length env.scope List.mem_cons_self
  simp only [Environment.depth, Environment.scopes, List.length_cons]
  omega

/-- The last scope is inside no other. -/
theorem getLast (line : lineage.Line scopes) :
    ∃ root, scopes.getLast? = some root ∧ lineage.parents[root]? = some none := by
  induction line with
  | root alone => exact ⟨_, rfl, alone⟩
  | inside _ _ induction => exact induction

end Line

/-- Going out from any scope ends. -/
theorem exists_line (lineage : Lineage) {scope : Nat} (known : scope < lineage.parents.length) :
    ∃ outer, lineage.Line (scope :: outer) := by
  induction scope using Nat.strong_induction_on with
  | _ scope induction =>
      cases inside : lineage.parents[scope] with
      | none => exact ⟨[], .root (by rw [List.getElem?_eq_getElem known, inside])⟩
      | some parent =>
          have within : lineage.parents[scope]? = some (some parent) := by
            rw [List.getElem?_eq_getElem known, inside]
          have newer := lineage.older within
          rcases induction parent newer (newer.trans known) with ⟨outer, line⟩
          exact ⟨parent :: outer, .inside within line⟩

theorem line_single : single.Line Environment.root.scopes :=
  .root rfl

theorem line_extend {lineage : Lineage} {env : Environment} (line : lineage.Line env.scopes)
    (known : ∀ number ∈ some env.scope, number < lineage.parents.length) :
    (lineage.extend (some env.scope) known).Line (env.nest lineage.parents.length).scopes :=
  .inside List.getElem?_concat_length (line.mono (le_extend lineage _ known))

theorem line_extend_none (lineage : Lineage)
    (known : ∀ number ∈ none, number < lineage.parents.length) :
    (lineage.extend none known).Line [lineage.parents.length] :=
  .root List.getElem?_concat_length

end Lineage

end RuleLisp
