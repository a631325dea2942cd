import RuleLisp.Proofs.Eval.Counter
import RuleLisp.Proofs.Eval.Growth

/-! # The depth limit

The limit on the depth decides where evaluation is cut short and nothing else. A run that ends
within the limit is the same under every higher limit, and a run that does not is the beginning of
what it is under a higher one.
-/

namespace RuleLisp

/-! ## Higher limits -/

def Store.HostsNeverOverflow (store : Store) : Prop :=
  ∀ number args error, store.host number args = .error error → error.isOverflow = false

theorem Store.Grows.hostsNeverOverflow {store after : Store} (grows : store.Grows after)
    (quiet : store.HostsNeverOverflow) : after.HostsNeverOverflow := by
  intro number args error failed
  rw [grows.host] at failed
  exact quiet number args error failed

structure RunsOn {α : Type} (results : α → Prop) (run : Run α) (store : Store) : Prop where
  grows : store.Grows (run.runOn store).2
  result : ∀ result, (run.runOn store).1 = .ok result → results result

namespace RunsOn

variable {α β : Type} {results : α → Prop} {lasts : β → Prop} {run : Run α} {next : α → Run β}
  {store : Store}

theorem grows_bind (runs : RunsOn results run store)
    (nexts : ∀ result, results result → RunsOn lasts (next result) (run.runOn store).2) :
    (run.runOn store).2.Grows ((run >>= next).runOn store).2 := by
  rcases ran : run.runOn store with ⟨error | result, after⟩
  · rw [Run.runOn_bind_error ran]
    exact .refl after
  · rw [ran] at nexts
    rw [Run.runOn_bind_ok ran]
    exact (nexts result (runs.result result (congrArg Prod.fst ran))).grows

theorem bind (runs : RunsOn results run store)
    (nexts : ∀ result, results result → RunsOn lasts (next result) (run.runOn store).2) :
    RunsOn lasts (run >>= next) store := by
  refine ⟨runs.grows.trans (runs.grows_bind nexts), ?_⟩
  rcases ran : run.runOn store with ⟨error | result, after⟩
  · rw [Run.runOn_bind_error ran]
    intro last impossible
    cases impossible
  · rw [ran] at nexts
    rw [Run.runOn_bind_ok ran]
    exact (nexts result (runs.result result (congrArg Prod.fst ran))).result

end RunsOn

/-- The ends of two runs of which only the first is bound by the limit. -/
inductive Ends {α β : Type} (limit : Nat) (results : α → β → Prop) :
    Except RunError α × Store → Except RunError β × Store → Prop
  | same {outcome : Except RunError α} {other : Except RunError β} (after : Store)
      (outcomes : OutcomeRel results outcome other)
      (calm : ∀ error, outcome = .error error → error.isOverflow = false) :
      Ends limit results (outcome, after) (other, after)
  | overflow {after otherAfter : Store} (other : Except RunError β) (lines : Array String)
      (printed : otherAfter.printed = after.printed ++ lines) :
      Ends limit results (.error (.stackOverflow limit), after) (other, otherAfter)

/-- The first run is the same as the second, or is cut short where the second runs on. -/
structure CutsShort {α β : Type} (limit : Nat) (results : α → β → Prop) (run : Run α)
    (other : Run β) (store : Store) : Prop where
  runsOn : RunsOn (fun twin => ∃ result, results result twin) other store
  ends : Ends limit results (run.runOn store) (other.runOn store)

namespace CutsShort

variable {α β γ δ : Type} {limit : Nat} {results : α → β → Prop} {lasts : γ → δ → Prop}
  {run : Run α} {other : Run β} {store : Store}

theorem of_same {outcome : Except RunError α} {otherOutcome : Except RunError β} {after : Store}
    (ran : run.runOn store = (outcome, after))
    (otherRan : other.runOn store = (otherOutcome, after))
    (outcomes : OutcomeRel results outcome otherOutcome)
    (calm : ∀ error, outcome = .error error → error.isOverflow = false)
    (grows : store.Grows after) : CutsShort limit results run other store := by
  refine ⟨⟨?_, ?_⟩, ?_⟩
  · rw [otherRan]
    exact grows
  · intro twin found
    rw [otherRan] at found
    cases outcomes with
    | ok related =>
        cases found
        exact ⟨_, related⟩
    | error error => cases found
  · rw [ran, otherRan]
    exact .same after outcomes calm

theorem bind {next : α → Run γ} {otherNext : β → Run δ}
    (firsts : CutsShort limit results run other store)
    (nexts : ∀ result twin, results result twin →
      CutsShort limit lasts (next result) (otherNext twin) (other.runOn store).2) :
    CutsShort limit lasts (run >>= next) (other >>= otherNext) store := by
  have nextsRunOn : ∀ twin, (∃ result, results result twin) →
      RunsOn (fun last => ∃ result, lasts result last) (otherNext twin) (other.runOn store).2 := by
    intro twin partner
    rcases partner with ⟨result, related⟩
    exact (nexts result twin related).runsOn
  refine ⟨firsts.runsOn.bind nextsRunOn, ?_⟩
  have grows := firsts.runsOn.grows_bind nextsRunOn
  have ends := firsts.ends
  generalize ran : run.runOn store = end_ at ends
  generalize otherRan : other.runOn store = otherEnd at ends nexts grows
  cases ends with
  | same after outcomes calm =>
      cases outcomes with
      | ok related =>
          rw [Run.runOn_bind_ok ran, Run.runOn_bind_ok otherRan]
          exact (nexts _ _ related).ends
      | error error =>
          rw [Run.runOn_bind_error ran, Run.runOn_bind_error otherRan]
          exact .same after (.error error) fun _ same => calm _ (by cases same; rfl)
  | overflow outcome lines printed =>
      rw [Run.runOn_bind_error ran]
      rcases grows.printed with ⟨more, later⟩
      rw [printed, Array.append_assoc] at later
      exact .overflow ((other >>= otherNext).runOn store).1 _ later

end CutsShort

def RunRelation.cutShort (limit : Nat) : RunRelation Run Run where
  Relates results run other := ∀ store, store.HostsNeverOverflow →
    CutsShort limit results run other store
  pure related store _ :=
    .of_same rfl rfl (.ok related) (fun _ failed => nomatch failed) (.refl store)
  throw calm store _ := by
    apply CutsShort.of_same rfl rfl (.error _) _ (.refl store)
    intro error failed
    cases failed
    exact calm
  bind firsts nexts store quiet := by
    have first := firsts store quiet
    apply first.bind
    intro result twin related
    exact nexts result twin related _ (first.runsOn.grows.hostsNeverOverflow quiet)

namespace Eval

variable {limit : Nat} {eval otherEval : Evaluator}
  (shorter : ∀ expr env,
    (RunRelation.cutShort limit).Relates (Value.Like .identity) (eval expr env)
      (otherEval expr env))

theorem cutShort_modify (limit : Nat) {change : Store → Store}
    (grows : ∀ store : Store, store.Grows (change store)) :
    (RunRelation.cutShort limit).Relates (fun _ _ => True) (modify change) (modify change) := by
  intro store _
  exact .of_same rfl rfl (.ok trivial) (fun _ failed => nomatch failed) (grows store)

include shorter

theorem call_cutShort (callee : Function) (args : List Value) :
    (RunRelation.cutShort limit).Relates (Value.Like .identity) (call eval callee args)
      (call otherEval callee args) := by
  intro store quiet
  cases callee with
  | host number name =>
      exact .of_same (runOn_call_host ..) (runOn_call_host ..) (.refl .refl _) (quiet number args)
        (.refl store)
  | closure definition =>
      have nested := Store.Grows.nest definition.env
        (Table.ofList (parameters definition.params args)) store
      rcases shorter definition.body (definition.env.nest store.scopes.size) _
        (nested.hostsNeverOverflow quiet) with ⟨⟨grows, partner⟩, ends⟩
      exact ⟨⟨nested.trans grows, partner⟩, ends⟩

theorem sideBySide_cutShort (env : Environment) :
    SideBySide (.cutShort limit) .identity (· = ·) (fun _ => True) (fun _ => True) eval otherEval
      env env :=
  .ofSame
    (fun store _ => .of_same rfl rfl (.ok rfl) (fun _ failed => nomatch failed) (.refl store))
    (fun _ _ => cutShort_modify limit (.define env _ _))
    (fun _ _ _ => cutShort_modify limit (.defineClosure env _ _ _))
    (fun _ => cutShort_modify limit (.print _)) (call_cutShort shorter) fun expr => shorter expr env

omit shorter

/-- With fewer levels and another limit to report, evaluation is cut short at most. -/
theorem within_cutShort (limit more : Nat) {remaining levels : Nat} (le : remaining ≤ levels)
    (expr : Expr) (env : Environment) :
    (RunRelation.cutShort limit).Relates (Value.Like .identity) (within limit remaining expr env)
      (within more levels expr env) := by
  induction remaining generalizing levels expr env with
  | zero =>
      intro store _
      have grows := isGrowing_within more levels expr env store
      rcases grows.printed with ⟨lines, printed⟩
      refine ⟨⟨grows, fun value _ => ⟨value, .refl value⟩⟩, ?_⟩
      exact .overflow ((within more levels expr env).runOn store).1 lines printed
  | succ remaining induction =>
      rcases levels with _ | levels
      · cases le
      · have shorter := induction (Nat.le_of_succ_le_succ le)
        exact (sideBySide_cutShort shorter env).step (.anything expr)

end Eval

/-! ## The ends of runs -/

theorem OutcomeRel.eq_of_identity {outcome other : Except RunError Value}
    (outcomes : OutcomeRel (Value.Like .identity) outcome other) : outcome = other := by
  cases outcomes with
  | ok alike => rw [alike.eq_of_identity]
  | error error => rfl

namespace Ends

variable {limit : Nat} {ran otherRan : Except RunError Value × Store}
  (ends : Ends limit (Value.Like .identity) ran otherRan)

include ends

theorem eq_of_not_overflow (finished : ∀ reported, ran.1 ≠ .error (.stackOverflow reported)) :
    otherRan = ran := by
  cases ends with
  | same after outcomes _ => rw [outcomes.eq_of_identity]
  | overflow => exact absurd rfl (finished limit)

theorem of_overflow {reported : Nat} (failed : ran.1 = .error (.stackOverflow reported)) :
    reported = limit ∧ ∃ lines, otherRan.2.printed = ran.2.printed ++ lines := by
  cases ends with
  | same after _ calm => cases calm _ failed
  | overflow other lines printed =>
      cases failed
      exact ⟨rfl, lines, printed⟩

end Ends

/-! ## Tasks -/

inductive Task where
  | exprs (env : Environment) (items : List Expr)
  | expr (env : Environment) (item : Expr)
  | call (callee : Function) (args : List Value)

namespace Task

def within (limit remaining : Nat) : Task → Run Value
  | exprs env items => items.foldlM (fun _ next => Eval.within limit remaining next env) .null
  | expr env item => Eval.within limit remaining item env
  | call callee args => Eval.call (Eval.within limit remaining) callee args

def counted (limit : Nat) : Task → CountedRun Value
  | exprs env items => Eval.Counted.exprs limit env items
  | expr env item => Eval.Counted.expr limit item env
  | call callee args => Eval.Counted.apply limit callee args

section

variable {m n : Type → Type} [Monad m] [Monad n] [LawfulMonad m] [LawfulMonad n]
  [MonadExceptOf RunError m] [MonadExceptOf RunError n] (relation : RunRelation m n)
  {eval : EvaluatorIn m} {otherEval : EvaluatorIn n}

theorem relates_row (related : ∀ expr env,
      relation.Relates (Value.Like .identity) (eval expr env) (otherEval expr env))
    (env : Environment) (items : List Expr) :
    relation.Relates (Value.Like .identity) (items.foldlM (fun _ next => eval next env) .null)
      (items.foldlM (fun _ next => otherEval next env) .null) := by
  have sameItems : List.Forall₂ (· = ·) items items := List.forall₂_same.mpr fun _ _ => rfl
  apply relation.foldlM sameItems
  · intro item twin _ _ same _
    rw [same]
    exact related twin env
  · exact .null

end

theorem counted_ofCounter (limit depth : Nat) (task : Task) :
    (RunRelation.ofCounter depth).Relates (Value.Like .identity)
      (task.within limit (limit - depth)) (task.counted limit) := by
  have agree : ∀ expr env, (RunRelation.ofCounter depth).Relates (Value.Like .identity)
      (Eval.within limit (limit - depth) expr env) (Eval.Counted.expr limit expr env) :=
    Eval.within_ofCounter (Nat.le_add_left limit depth)
  cases task with
  | exprs env items => exact relates_row _ agree env items
  | expr env item => exact agree item env
  | call callee args => exact Eval.call_ofCounter agree callee args

theorem within_cutShort (limit more : Nat) {remaining levels : Nat} (le : remaining ≤ levels)
    (task : Task) :
    (RunRelation.cutShort limit).Relates (Value.Like .identity) (task.within limit remaining)
      (task.within more levels) := by
  have shorter := Eval.within_cutShort limit more le
  cases task with
  | exprs env items => exact relates_row _ shorter env items
  | expr env item => exact shorter item env
  | call callee args => exact Eval.call_cutShort shorter callee args

theorem runAt_counted (limit depth : Nat) (task : Task) (store : Store) :
    (task.counted limit).runAt depth store =
      (((task.within limit (limit - depth)).runOn store).1, depth,
        ((task.within limit (limit - depth)).runOn store).2) := by
  rcases counted_ofCounter limit depth task store with ⟨outcomes, counter⟩
  exact Prod.ext outcomes.eq_of_identity.symm counter

/-- A run leaves the counter as it was, so that the next one finds what a new evaluator would find.
A run that ends within the limit ends in the same way under a higher one, and one that does not
reports the limit and has printed the first of the lines that it prints under a higher one. -/
theorem depth_limit_only_cuts_short (task : Task) (limit depth : Nat) (store : Store) :
    let ran := (task.counted limit).runAt depth store
    (ran.2.1 = depth ∧ ∀ next : Task,
      let fresh := (next.within limit (limit - depth)).runOn ran.2.2
      (next.counted limit).runAt ran.2.1 ran.2.2 = (fresh.1, depth, fresh.2)) ∧
    (store.HostsNeverOverflow →
      ((∀ reported, ran.1 ≠ .error (.stackOverflow reported)) → ∀ more, limit ≤ more →
        (task.counted more).runAt depth store = ran) ∧
      ∀ reported, ran.1 = .error (.stackOverflow reported) → reported = limit ∧
        ∀ more, limit ≤ more → ∃ lines,
          ((task.counted more).runAt depth store).2.2.printed = ran.2.2.printed ++ lines) := by
  intro ran
  have restored : ran.2.1 = depth := congrArg (·.2.1) (runAt_counted limit depth task store)
  refine ⟨⟨restored, ?_⟩, ?_⟩
  · intro next fresh
    rw [restored]
    exact runAt_counted limit depth next ran.2.2
  · intro quiet
    have ends (more : Nat) (le : limit ≤ more) :=
      (within_cutShort limit more (Nat.sub_le_sub_right le depth) task store quiet).ends
    simp only [ran, runAt_counted]
    refine ⟨?_, ?_⟩
    · intro finished more le
      rw [(ends more le).eq_of_not_overflow finished]
    · intro reported failed
      refine ⟨((ends limit (Nat.le_refl limit)).of_overflow failed).1, ?_⟩
      intro more le
      exact ((ends more le).of_overflow failed).2

/-- A function that prints and calls itself for ever, called with a host function at hand. -/
theorem depth_limit_only_cuts_short_endless :
    let print : Expr := .list [.atom (.symbol "print"), .atom (.symbol "x")]
    let body : Expr := .list [.atom (.symbol "loop"), print]
    let loop : Function := .closure ⟨0, "loop", ["x"], body, .root⟩
    let store : Store := ⟨#[[("loop", .function loop)]], 1, #[fun _ => .ok .null], #["start"]⟩
    let task : Task := .call loop [.string "again"]
    let ran := (task.counted 5).runAt 1 store
    store.HostsNeverOverflow ∧ ran.1 = .error (.stackOverflow 5) ∧ ran.2.1 = 1 ∧
      ran.2.2.printed = #["start", "again", "again"] ∧
      ∃ lines, ((task.counted 8).runAt 1 store).2.2.printed = ran.2.2.printed ++ lines := by
  intro print body loop store task ran
  have quiet : store.HostsNeverOverflow := by
    intro number args error failed
    rcases number with _ | number <;> cases failed
  have failed : ran.1 = .error (.stackOverflow 5) := rfl
  rcases depth_limit_only_cuts_short task 5 1 store with ⟨⟨restored, _⟩, limited⟩
  exact ⟨quiet, failed, restored, by decide, ((limited quiet).2 5 failed).2 8 (by decide)⟩

end Task

end RuleLisp
