import RuleLisp.Eval.Counter
import RuleLisp.Proofs.Eval.Invariant

/-! # The counter of an evaluator

Evaluation with a counter does the same as evaluation with a number of levels remaining, and leaves
the counter as it was, however it ends.
-/

namespace RuleLisp

namespace CountedRun

instance lawfulMonad : LawfulMonad CountedRun :=
  inferInstance

variable {α β : Type}

theorem runAt_bind (first : CountedRun α) (next : α → CountedRun β) (depth : Nat) (store : Store) :
    (first >>= next).runAt depth store =
      match first.runAt depth store with
      | (.ok result, depth, after) => (next result).runAt depth after
      | (.error error, depth, after) => (.error error, depth, after) := by
  simp only [runAt, ExceptT.run_bind, StateT.run_bind]
  rcases ((ExceptT.run first).run depth).run store with ⟨⟨error | result, depth⟩, after⟩ <;> rfl

theorem runAt_deeper (limit : Nat) (run : CountedRun α) (depth : Nat) (store : Store) :
    (Eval.Counted.deeper limit run).runAt depth store =
      if limit < depth + 1 then (.error (.stackOverflow limit), depth, store)
      else ((run.runAt (depth + 1) store).1, depth, (run.runAt (depth + 1) store).2.2) := by
  change runAt (ExceptT.mk (if limit < depth + 1 then _ else _)) depth store = _
  split <;> rfl

end CountedRun

/-- A computation that counts, started at a depth, does what another one does without counting and
leaves the counter at that depth. -/
def RunRelation.ofCounter (depth : Nat) : RunRelation Run CountedRun where
  Relates results run counted := ∀ store,
    OutcomeRel results (run.runOn store).1 (counted.runAt depth store).1 ∧
      (counted.runAt depth store).2 = (depth, (run.runOn store).2)
  pure related store := ⟨.ok related, rfl⟩
  throw _ store := ⟨.error _, rfl⟩
  bind := by
    intro α β γ δ results lasts first other next otherNext firsts nexts store
    rcases firsts store with ⟨outcomes, counter⟩
    rw [Run.runOn_bind, CountedRun.runAt_bind]
    revert outcomes counter
    rcases first.runOn store with ⟨outcome, after⟩
    rcases other.runAt depth store with ⟨otherOutcome, otherDepth, otherAfter⟩
    intro outcomes counter
    cases counter
    cases outcomes with
    | ok related => exact nexts _ _ related after
    | error error => exact ⟨.error error, rfl⟩

namespace Eval

variable {depth : Nat} {eval : Evaluator} {counted : EvaluatorIn CountedRun}
  (agree : ∀ expr env,
    (RunRelation.ofCounter depth).Relates (Value.Like .identity) (eval expr env) (counted expr env))

include agree

theorem call_ofCounter (callee : Function) (args : List Value) :
    (RunRelation.ofCounter depth).Relates (Value.Like .identity) (call eval callee args)
      (call counted callee args) := by
  intro store
  cases callee with
  | closure definition => exact agree definition.body _ _
  | host number name =>
      rw [runOn_call_host]
      let answer : CountedRun Value := Run.ofExcept (store.host number args)
      change OutcomeRel _ _ (answer.runAt depth store).1 ∧ (answer.runAt depth store).2 = _
      simp only [answer]
      cases store.host number args with
      | ok value => exact ⟨.ok (.refl value), rfl⟩
      | error error => exact ⟨.error error, rfl⟩

theorem sideBySide_ofCounter (env : Environment) :
    SideBySide (.ofCounter depth) .identity (· = ·) (fun _ => True) (fun _ => True) eval counted
      env env :=
  .ofSame (fun _ => ⟨.ok rfl, rfl⟩) (fun _ _ _ => ⟨.ok trivial, rfl⟩)
    (fun _ _ _ _ => ⟨.ok trivial, rfl⟩) (fun _ _ => ⟨.ok trivial, rfl⟩) (call_ofCounter agree)
    fun expr => agree expr env

omit agree

/-- Counting up to the limit is the same as handing down what remains of it. -/
theorem within_ofCounter {limit levels : Nat} (enough : limit ≤ depth + levels) (expr : Expr)
    (env : Environment) :
    (RunRelation.ofCounter depth).Relates (Value.Like .identity)
      (within limit (limit - depth) expr env) (Counted.within limit levels expr env) := by
  induction levels generalizing depth expr env with
  | zero =>
      intro store
      rw [Nat.sub_eq_zero_of_le (show limit ≤ depth from enough)]
      exact ⟨.error _, rfl⟩
  | succ levels induction =>
      intro store
      rw [Counted.within, CountedRun.runAt_deeper]
      by_cases past : limit < depth + 1
      · rw [if_pos past, Nat.sub_eq_zero_of_le (Nat.le_of_lt_succ past)]
        exact ⟨.error _, rfl⟩
      · rw [if_neg past, show limit - depth = limit - (depth + 1) + 1 by omega]
        have agree := induction (show limit ≤ depth + 1 + levels by omega)
        rcases (sideBySide_ofCounter agree env).step (.anything expr) store with
          ⟨outcomes, counter⟩
        rw [counter]
        exact ⟨outcomes, rfl⟩

end Eval

end RuleLisp
