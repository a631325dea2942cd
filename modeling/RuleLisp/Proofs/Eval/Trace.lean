import RuleLisp.Proofs.Eval.Depth

/-! # The moments of a run

An evaluator may write down each expression that it comes to, with the environment and the store of
that moment, and its result once there is one. Writing down changes nothing else.
-/

namespace RuleLisp

/-- What stands before an evaluator at one moment of a run. -/
structure Moment where
  env : Environment
  expr : Expr
  /-- The value of the expression, if the moment is at the end of its evaluation. -/
  result : Option Value
  store : Store

/-- A computation that writes its moments down, the last one first. -/
abbrev TracedRun :=
  ExceptT RunError (StateT (List Moment) (StateM Store))

namespace TracedRun

variable {α β : Type}

def runOn (run : TracedRun α) (moments : List Moment) (store : Store) :
    Except RunError α × List Moment × Store :=
  let ran := ((ExceptT.run run).run moments).run store
  (ran.1.1, ran.1.2, ran.2)

def watch (env : Environment) (expr : Expr) (run : TracedRun Value) : TracedRun Value := do
  let before ← getThe Store
  modifyThe (List Moment) (⟨env, expr, none, before⟩ :: ·)
  let value ← run
  let after ← getThe Store
  modifyThe (List Moment) (⟨env, expr, some value, after⟩ :: ·)
  return value

instance lawfulMonad : LawfulMonad TracedRun :=
  inferInstance

theorem runOn_bind (first : TracedRun α) (next : α → TracedRun β) (moments : List Moment)
    (store : Store) :
    (first >>= next).runOn moments store =
      match first.runOn moments store with
      | (.ok result, moments, after) => (next result).runOn moments after
      | (.error error, moments, after) => (.error error, moments, after) := by
  simp only [runOn, ExceptT.run_bind, StateT.run_bind]
  rcases ((ExceptT.run first).run moments).run store with ⟨⟨error | result, moments⟩, after⟩ <;> rfl

theorem runOn_watch (env : Environment) (expr : Expr) (run : TracedRun Value)
    (moments : List Moment) (store : Store) :
    (watch env expr run).runOn moments store =
      match run.runOn (⟨env, expr, none, store⟩ :: moments) store with
      | (.ok value, moments, after) =>
          (.ok value, ⟨env, expr, some value, after⟩ :: moments, after)
      | (.error error, moments, after) => (.error error, moments, after) := by
  change (run >>= _).runOn (⟨env, expr, none, store⟩ :: moments) store = _
  rw [runOn_bind]
  rcases run.runOn (⟨env, expr, none, store⟩ :: moments) store with
    ⟨error | value, moments, after⟩ <;> rfl

end TracedRun

def Eval.Traced.within (limit : Nat) : (remaining : Nat) → EvaluatorIn TracedRun
  | 0 => fun expr env => TracedRun.watch env expr (throw (.stackOverflow limit))
  | remaining + 1 => fun expr env =>
      TracedRun.watch env expr (step (within limit remaining) expr env)

/-! ## A traced run is a run -/

def RunRelation.ofTrace : RunRelation Run TracedRun where
  Relates results run traced := ∀ moments store,
    OutcomeRel results (run.runOn store).1 (traced.runOn moments store).1 ∧
      (traced.runOn moments store).2.2 = (run.runOn store).2
  pure related moments store := ⟨.ok related, rfl⟩
  throw _ moments store := ⟨.error _, rfl⟩
  bind := by
    intro α β γ δ results lasts first other next otherNext firsts nexts moments store
    rcases firsts moments store with ⟨outcomes, stores⟩
    rw [Run.runOn_bind, TracedRun.runOn_bind]
    revert outcomes stores
    rcases first.runOn store with ⟨outcome, after⟩
    rcases other.runOn moments store with ⟨otherOutcome, seen, otherAfter⟩
    intro outcomes stores
    cases stores
    cases outcomes with
    | ok related => exact nexts _ _ related seen after
    | error error => exact ⟨.error error, rfl⟩

namespace Eval

variable {eval : Evaluator} {traced : EvaluatorIn TracedRun}
  (agree : ∀ expr env,
    RunRelation.ofTrace.Relates (Value.Like .identity) (eval expr env) (traced expr env))

include agree

theorem call_ofTrace (callee : Function) (args : List Value) :
    RunRelation.ofTrace.Relates (Value.Like .identity) (call eval callee args)
      (call traced callee args) := by
  intro moments store
  cases callee with
  | closure definition => exact agree definition.body _ moments _
  | host number name =>
      rw [runOn_call_host]
      let answer : TracedRun Value := Run.ofExcept (store.host number args)
      change OutcomeRel _ _ (answer.runOn moments store).1 ∧ (answer.runOn moments store).2.2 = _
      simp only [answer]
      cases store.host number args with
      | ok value => exact ⟨.ok (.refl value), rfl⟩
      | error error => exact ⟨.error error, rfl⟩

theorem sideBySide_ofTrace (env : Environment) :
    SideBySide .ofTrace .identity (· = ·) (fun _ => True) (fun _ => True) eval traced env env :=
  .ofSame (fun _ _ => ⟨.ok rfl, rfl⟩) (fun _ _ _ _ => ⟨.ok trivial, rfl⟩)
    (fun _ _ _ _ _ => ⟨.ok trivial, rfl⟩) (fun _ _ _ => ⟨.ok trivial, rfl⟩) (call_ofTrace agree)
    fun expr => agree expr env

omit agree

theorem within_ofTrace (limit remaining : Nat) (expr : Expr) (env : Environment) :
    RunRelation.ofTrace.Relates (Value.Like .identity) (within limit remaining expr env)
      (Traced.within limit remaining expr env) := by
  induction remaining generalizing expr env with
  | zero =>
      intro moments store
      exact ⟨.error _, rfl⟩
  | succ remaining induction =>
      intro moments store
      have stepped := (sideBySide_ofTrace induction env).step (.anything expr)
        (⟨env, expr, none, store⟩ :: moments) store
      rw [Traced.within, TracedRun.runOn_watch]
      revert stepped
      rcases (step (Traced.within limit remaining) expr env).runOn
        (⟨env, expr, none, store⟩ :: moments) store with ⟨error | value, seen, after⟩ <;>
          exact id

end Eval

namespace Task

def traced (limit remaining : Nat) : Task → TracedRun Value
  | exprs env items =>
      items.foldlM (fun _ next => Eval.Traced.within limit remaining next env) .null
  | expr env item => Eval.Traced.within limit remaining item env
  | call callee args => Eval.call (Eval.Traced.within limit remaining) callee args

theorem within_ofTrace (limit remaining : Nat) (task : Task) :
    RunRelation.ofTrace.Relates (Value.Like .identity) (task.within limit remaining)
      (task.traced limit remaining) := by
  have agree := Eval.within_ofTrace limit remaining
  cases task with
  | exprs env items => exact relates_row _ agree env items
  | expr env item => exact agree item env
  | call callee args => exact Eval.call_ofTrace agree callee args

theorem runOn_traced (limit remaining : Nat) (task : Task) (moments : List Moment)
    (store : Store) :
    let ran := (task.traced limit remaining).runOn moments store
    (ran.1, ran.2.2) = (task.within limit remaining).runOn store := by
  rcases within_ofTrace limit remaining task moments store with ⟨outcomes, stores⟩
  exact Prod.ext outcomes.eq_of_identity.symm stores

end Task

end RuleLisp
