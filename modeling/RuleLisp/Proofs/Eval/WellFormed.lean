import RuleLisp.Proofs.Eval.Trace
import RuleLisp.Proofs.Store

/-! # Evaluation and well-formed stores

A run that starts on a well-formed store, in an environment that exists, is well-formed at each of
its moments: the environment, the values and the store.
-/

namespace RuleLisp

variable (allowance : Allowance)

structure Moment.IsWellFormed (lineage : Lineage) (moment : Moment) : Prop where
  env : lineage.Line moment.env.scopes
  expr : allowance.Allows moment.env.depth moment.expr
  result : ∀ value ∈ moment.result, Value.WellFormedIn (Lineage.Knows allowance) lineage value
  store : moment.store.IsWellFormed allowance lineage

structure TracedRun.EndsIn {α : Type} (lineage : Lineage) (results : Lineage → α → Prop)
    (before : List Moment) (ran : Except RunError α × List Moment × Store) : Prop where
  store : ran.2.2.IsWellFormed allowance lineage
  result : ∀ result, ran.1 = .ok result → results lineage result
  moments : ∀ moment ∈ ran.2.1, moment ∈ before ∨
    ∃ between, between ≤ lineage ∧ moment.IsWellFormed allowance between

theorem TracedRun.EndsIn.error {α : Type} {lineage : Lineage} {results : Lineage → α → Prop}
    (error : RunError) (moments : List Moment) {store : Store}
    (wellFormed : store.IsWellFormed allowance lineage) :
    EndsIn allowance lineage results moments (.error error, moments, store) :=
  ⟨wellFormed, fun _ impossible => (nomatch impossible), fun _ => .inl⟩

def RunProperty.wellFormed : RunProperty Lineage TracedRun where
  Holds lineage results run := ∀ moments store, store.IsWellFormed allowance lineage →
    ∃ later, lineage ≤ later ∧
      TracedRun.EndsIn allowance later results moments (run.runOn moments store)
  pure := by
    intro α lineage results result holds moments store wellFormed
    refine ⟨lineage, le_rfl, wellFormed, ?_, fun _ => .inl⟩
    intro other same
    cases same
    exact holds
  throw := by
    intro α lineage results error _ moments store wellFormed
    exact ⟨lineage, le_rfl, .error allowance error moments wellFormed⟩
  bind := by
    intro α β lineage results lasts first next firsts nexts moments store wellFormed
    rcases firsts moments store wellFormed with ⟨middle, le, ends⟩
    rw [TracedRun.runOn_bind]
    revert ends
    rcases first.runOn moments store with ⟨error | result, seen, after⟩ <;> intro ends
    · exact ⟨middle, le, ends.store, fun _ impossible => (nomatch impossible), ends.moments⟩
    · rcases nexts middle le result (ends.result result rfl) seen after ends.store with
        ⟨later, lt, lastEnds⟩
      refine ⟨later, le.trans lt, lastEnds.store, lastEnds.result, ?_⟩
      intro moment member
      rcases lastEnds.moments moment member with old | new
      · rcases ends.moments moment old with older | ⟨between, ended, momentWellFormed⟩
        · exact .inl older
        · exact .inr ⟨between, ended.trans lt, momentWellFormed⟩
      · exact .inr new

namespace TracedRun

variable {allowance} {lineage later : Lineage}

namespace EndsIn

variable {α : Type} {results : Lineage → α → Prop} {before seen : List Moment} {moment : Moment}
  {outcome : Except RunError α} {after : Store}

theorem drop {ran : Except RunError α × List Moment × Store} (le : lineage ≤ later)
    (wellFormed : moment.IsWellFormed allowance lineage)
    (ends : EndsIn allowance later results (moment :: before) ran) :
    EndsIn allowance later results before ran := by
  refine ⟨ends.store, ends.result, ?_⟩
  intro other member
  rcases ends.moments other member with old | new
  · rcases List.mem_cons.mp old with same | older
    · subst same
      exact .inr ⟨lineage, le, wellFormed⟩
    · exact .inl older
  · exact .inr new

theorem add (wellFormed : moment.IsWellFormed allowance later)
    (ends : EndsIn allowance later results before (outcome, seen, after)) :
    EndsIn allowance later results before (outcome, moment :: seen, after) := by
  refine ⟨ends.store, ends.result, ?_⟩
  intro other member
  rcases List.mem_cons.mp member with same | older
  · subst same
    exact .inr ⟨later, le_rfl, wellFormed⟩
  · exact ends.moments other older

end EndsIn

/-- A run may fail with any error: one of a rule, of the host or of the limit. -/
theorem holds_throw (error : RunError) {α : Type} {results : Lineage → α → Prop} :
    (RunProperty.wellFormed allowance).Holds lineage results (throw error) := by
  intro moments store wellFormed
  exact ⟨lineage, le_rfl, .error allowance error moments wellFormed⟩

theorem holds_ofExcept {α : Type} {results : Lineage → α → Prop} {outcome : Except RunError α}
    (fine : ∀ result, outcome = .ok result → results lineage result) :
    (RunProperty.wellFormed allowance).Holds lineage results
      (Run.ofExcept outcome : TracedRun α) := by
  cases outcome with
  | ok result => exact (RunProperty.wellFormed allowance).pure (fine result rfl)
  | error error => exact holds_throw error

theorem holds_modify {change : Store → Store}
    (kept : ∀ store, store.IsWellFormed allowance lineage →
      (change store).IsWellFormed allowance lineage) :
    (RunProperty.wellFormed allowance).Holds lineage (fun _ _ => True)
      (modifyThe Store change : TracedRun PUnit) := by
  intro moments store wellFormed
  exact ⟨lineage, le_rfl, kept store wellFormed, fun _ _ => trivial, fun _ => .inl⟩

theorem holds_watch {env : Environment} {expr : Expr} (line : lineage.Line env.scopes)
    (allowed : allowance.Allows env.depth expr) {run : TracedRun Value}
    (holds : (RunProperty.wellFormed allowance).Holds lineage
      (Value.WellFormedIn (Lineage.Knows allowance)) run) :
    (RunProperty.wellFormed allowance).Holds lineage
      (Value.WellFormedIn (Lineage.Knows allowance)) (watch env expr run) := by
  intro moments store wellFormed
  rcases holds (⟨env, expr, none, store⟩ :: moments) store wellFormed with ⟨later, le, ends⟩
  refine ⟨later, le, ?_⟩
  have start : Moment.IsWellFormed allowance lineage ⟨env, expr, none, store⟩ :=
    ⟨line, allowed, fun _ present => (nomatch present), wellFormed⟩
  have ended := ends.drop le start
  rw [runOn_watch]
  revert ended
  rcases run.runOn (⟨env, expr, none, store⟩ :: moments) store with
    ⟨error | value, seen, after⟩ <;> intro ended
  · exact ended
  · apply ended.add
    refine ⟨line.mono le, allowed, ?_, ended.store⟩
    intro result present
    cases present
    exact ended.result value rfl

end TracedRun

/-! ## One level of evaluation -/

theorem Eval.mem_parameters {params : List String} {args : List Value} {binding : String × Value}
    (member : binding ∈ parameters params args) : binding.2 = .null ∨ binding.2 ∈ args := by
  induction params generalizing args with
  | nil => cases member
  | cons param rest induction =>
      cases args with
      | nil =>
          rcases List.mem_cons.mp member with same | later
          · exact .inl (congrArg Prod.snd same)
          · exact induction later
      | cons arg args =>
          rcases List.mem_cons.mp member with same | later
          · exact .inr (congrArg Prod.snd same ▸ List.mem_cons_self)
          · exact (induction later).imp_right (List.mem_cons_of_mem arg)

namespace Eval.Traced

variable {allowance}

section

variable {eval : EvaluatorIn TracedRun}
  (evals : ∀ {lineage : Lineage} {expr : Expr} {env : Environment}, lineage.Line env.scopes →
    allowance.Allows env.depth expr → (RunProperty.wellFormed allowance).Holds lineage
      (Value.WellFormedIn (Lineage.Knows allowance)) (eval expr env))

include evals

theorem holds_call {lineage : Lineage} {callee : Function} (known : lineage.Knows allowance callee)
    {args : List Value}
    (all : ∀ arg ∈ args, Value.WellFormedIn (Lineage.Knows allowance) lineage arg) :
    (RunProperty.wellFormed allowance).Holds lineage
      (Value.WellFormedIn (Lineage.Knows allowance)) (call eval callee args) := by
  intro moments store wellFormed
  cases callee with
  | closure definition =>
      have bindings : ∀ binding ∈ Table.ofList (parameters definition.params args),
          Value.WellFormedIn (Lineage.Knows allowance) lineage binding.2 := by
        intro binding member
        rcases mem_parameters (Table.mem_of_mem_ofList member) with missing | given
        · rw [missing]
          exact .null
        · exact all binding.2 given
      rcases wellFormed.nest known.1 (Table.nodup_keys_ofList _) bindings with
        ⟨middle, le, line, nested⟩
      rcases evals line known.2 moments _ nested with ⟨later, lt, ends⟩
      exact ⟨later, le.trans lt, ends⟩
  | host number name =>
      have answers : (RunProperty.wellFormed allowance).Holds lineage
          (Value.WellFormedIn (Lineage.Knows allowance))
          (Run.ofExcept (store.host number args) : TracedRun Value) := by
        apply TracedRun.holds_ofExcept
        exact wellFormed.host number lineage le_rfl args all
      exact answers moments store wellFormed

theorem upholds {lineage : Lineage} {env : Environment} (line : lineage.Line env.scopes) :
    Upholds (.wellFormed allowance) (.wellFormed <| Lineage.Knows allowance ·)
      (allowance.Allows env.depth) eval env lineage where
  monotone := by
    intro earlier later le value wellFormed
    exact Value.IsWellFormed.mono (Lineage.monotone_knows allowance le) wellFormed
  get := by
    intro later le moments store wellFormed
    refine ⟨later, le_rfl, wellFormed, ?_, fun _ => .inl⟩
    intro seen same name value found
    cases same
    exact wellFormed.lookup found
  define := by
    intro later name value le holds
    exact TracedRun.holds_modify fun store wellFormed => wellFormed.define env name holds
  print := by
    intro later text le
    exact TracedRun.holds_modify fun store wellFormed => wellFormed.print text
  call le known all := holds_call evals known.of_function all
  eval le allowed := evals (line.mono le) allowed

end

theorem holds_within (limit remaining : Nat) {lineage : Lineage} {expr : Expr} {env : Environment}
    (line : lineage.Line env.scopes) (allowed : allowance.Allows env.depth expr) :
    (RunProperty.wellFormed allowance).Holds lineage
      (Value.WellFormedIn (Lineage.Knows allowance)) (within limit remaining expr env) := by
  induction remaining generalizing lineage expr env with
  | zero => exact TracedRun.holds_watch line allowed (TracedRun.holds_throw _)
  | succ remaining induction =>
      apply TracedRun.holds_watch line allowed
      apply (upholds induction line).step (allowance.parts allowed)
      rintro name params body rfl
      exact TracedRun.holds_modify fun store wellFormed => wellFormed.defineClosure line allowed

end Eval.Traced

/-! ## Tasks -/

namespace Task

def IsWellFormed (lineage : Lineage) : Task → Prop
  | exprs env items =>
      lineage.Line env.scopes ∧ ∀ item ∈ items, allowance.Allows env.depth item
  | expr env item => lineage.Line env.scopes ∧ allowance.Allows env.depth item
  | call callee args =>
      lineage.Knows allowance callee ∧
        ∀ arg ∈ args, Value.WellFormedIn (Lineage.Knows allowance) lineage arg

variable {allowance} {lineage : Lineage} {task : Task}
  (wellFormed : task.IsWellFormed allowance lineage) (limit remaining : Nat)

include wellFormed

theorem holds_traced :
    (RunProperty.wellFormed allowance).Holds lineage
      (Value.WellFormedIn (Lineage.Knows allowance)) (task.traced limit remaining) := by
  have evals := @Eval.Traced.holds_within allowance limit remaining
  cases task with
  | exprs env items =>
      refine RunProperty.foldlM _ ?_ .null
      intro item member later le _ _
      exact evals (wellFormed.1.mono le) (wellFormed.2 item member)
  | expr env item => exact evals wellFormed.1 wellFormed.2
  | call callee args => exact Eval.Traced.holds_call evals wellFormed.1 wellFormed.2

/-- A task that starts on a well-formed store. -/
theorem endsIn_within {store : Store} (storeWellFormed : store.IsWellFormed allowance lineage) :
    let ran := (task.within limit remaining).runOn store
    ∃ later, lineage ≤ later ∧ ran.2.IsWellFormed allowance later ∧
      ∀ value, ran.1 = .ok value → value.WellFormedIn (Lineage.Knows allowance) later := by
  intro ran
  rcases holds_traced wellFormed limit remaining [] store storeWellFormed with ⟨later, le, ends⟩
  rw [show ran = _ from (runOn_traced limit remaining task [] store).symm]
  exact ⟨later, le, ends.store, ends.result⟩

end Task

end RuleLisp
