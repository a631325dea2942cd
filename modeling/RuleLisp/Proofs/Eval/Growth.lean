import RuleLisp.Proofs.Eval.Invariant

/-! # What evaluation never takes back

Evaluation changes no function of the host, gives out the numbers of functions in order, and adds
lines after those that were printed before.
-/

namespace RuleLisp

namespace Store

structure Grows (before after : Store) : Prop where
  hosts : after.hosts = before.hosts
  closures : before.closures ≤ after.closures
  printed : ∃ lines, after.printed = before.printed ++ lines

namespace Grows

variable {first second third : Store}

theorem of_printed_eq (hosts : second.hosts = first.hosts)
    (closures : first.closures ≤ second.closures) (printed : second.printed = first.printed) :
    first.Grows second :=
  ⟨hosts, closures, #[], by rw [printed, Array.append_empty]⟩

theorem refl (store : Store) : store.Grows store :=
  .of_printed_eq rfl (Nat.le_refl _) rfl

theorem trans (early : first.Grows second) (late : second.Grows third) : first.Grows third := by
  rcases early with ⟨hosts, closures, lines, printed⟩
  rcases late with ⟨laterHosts, laterClosures, laterLines, laterPrinted⟩
  refine ⟨laterHosts.trans hosts, Nat.le_trans closures laterClosures, lines ++ laterLines, ?_⟩
  rw [laterPrinted, printed, Array.append_assoc]

theorem define (env : Environment) (name : String) (value : Value) (store : Store) :
    store.Grows (store.define env name value) :=
  .of_printed_eq rfl (Nat.le_refl _) rfl

theorem defineClosure (env : Environment) (name : String) (params : List String) (body : Expr)
    (store : Store) : store.Grows (store.defineClosure env name params body) :=
  .of_printed_eq rfl (Nat.le_succ _) rfl

theorem nest (env : Environment) (bindings : Table Value) (store : Store) :
    store.Grows (store.nest env bindings).2 :=
  .of_printed_eq rfl (Nat.le_refl _) rfl

theorem print (line : String) (store : Store) : store.Grows (store.print line) :=
  ⟨rfl, Nat.le_refl _, #[line], Array.push_eq_append⟩

theorem host (grows : first.Grows second) (number : Nat) :
    second.host number = first.host number := by
  rw [Store.host, Store.host, grows.hosts]

end Grows

end Store

/-! ## Evaluation -/

def Evaluator.IsGrowing (eval : Evaluator) : Prop :=
  ∀ expr env (store : Store), store.Grows ((eval expr env).runOn store).2

namespace Evaluator.IsGrowing

variable {eval : Evaluator} (growing : eval.IsGrowing)

include growing

theorem call (callee : Function) (args : List Value) (store : Store) :
    store.Grows ((Eval.call eval callee args).runOn store).2 := by
  cases callee with
  | host number name =>
      rw [Eval.runOn_call_host]
      exact .refl store
  | closure definition =>
      rw [Eval.runOn_call_closure]
      exact (Store.Grows.nest ..).trans (growing _ _ _)

theorem keeps (env : Environment) (start : Store) :
    eval.Keeps env (fun _ => True) start.Grows where
  define _ grows := grows.trans (.define ..)
  defineClosure _ grows := grows.trans (.defineClosure ..)
  print grows := grows.trans (.print ..)
  call grows := grows.trans (growing.call ..)
  eval _ grows := grows.trans (growing _ _ _)

theorem step : Evaluator.IsGrowing (Eval.step eval) := by
  intro expr env store
  exact (growing.keeps env store).step (fun _ _ => trivial) (.refl store)

end Evaluator.IsGrowing

theorem Eval.isGrowing_within (limit remaining : Nat) :
    Evaluator.IsGrowing (within limit remaining) := by
  induction remaining with
  | zero =>
      intro expr env store
      exact .refl store
  | succ remaining induction => exact induction.step

end RuleLisp
