import Mathlib.Data.List.TakeWhile
import RuleLisp.Proofs.Eval.SingleArgument

/-! # The order of operands

An operation goes through its operands from left to right. It evaluates no operand twice, none after
it has its answer, and none after the first that fails. Which operands it needs may depend on the
values of those before, so its progress is a relation between the operands that it has evaluated,
their values and the store that they have left.
-/

namespace RuleLisp

namespace Builtin

/-! ## What an operation asks for -/

/-- Why an operation turns its operands down before it evaluates any of them. -/
def rejection? (keyword : String) (args : List Expr) (builtin : Builtin) : Option RunError :=
  if builtin.operandCount?.any (args.length ≠ ·) then
    some (.arity keyword builtin.expected args.length)
  else
    match builtin, args.head? with
    | assign, some target =>
        if target.text?.isSome then none
        else
          some (.wrongType ("set requires a variable name, found `" ++ target.render ++ "`"))
    | _, _ => none

/-- The operands that an operation evaluates, in order, as far as the values of the first of them
are known. -/
def demanded (args : List Expr) (values : List Value) : Builtin → List Expr
  | and => args.take ((values.takeWhile (·.isTruthy)).length + 1)
  | or => args.take ((values.takeWhile (!·.isTruthy)).length + 1)
  | choose =>
      match args, values with
      | [condition, consequent, alternative], value :: _ =>
          [condition, if value.isTruthy then consequent else alternative]
      | args, _ => args.take 1
  | assign => args.tail
  | _ => args

def isNumeric : Builtin → Bool
  | add | subtract | multiply | divide | remainder | compare _ => true
  | _ => false

/-- Whether an operation divides by all of its operands but the first. -/
def isDivision : Builtin → Bool
  | divide | remainder => true
  | _ => false

/-- Why an operation goes no further than the value of an operand that has some operands before
it. -/
def refusal? (before : Nat) (value : Value) (builtin : Builtin) : Option RunError :=
  if builtin.isNumeric then
    match value.toNumber with
    | .error error => some error
    | .ok number =>
        if builtin.isDivision ∧ 0 < before ∧ number == 0 then some .divisionByZero else none
  else none

def effect (env : Environment) (args : List Expr) (values : List Value) (store : Store) :
    Builtin → Store
  | assign =>
      match args.head?.bind Expr.text?, values with
      | some name, [value] => store.define env name value
      | _, _ => store
  | print => store.print (" ".intercalate (values.map Value.render))
  | _ => store

theorem demanded_sublist (args : List Expr) (values : List Value) (builtin : Builtin) :
    (builtin.demanded args values).Sublist args := by
  cases builtin with
  | choose =>
      simp only [demanded]
      split
      · split <;> simp
      · exact List.take_sublist 1 args
  | and | or => exact List.take_sublist _ args
  | assign => exact List.tail_sublist args
  | _ => exact List.Sublist.refl args

/-! ## Progress -/

section

variable (eval : Evaluator) (env : Environment) (args : List Expr) (start : Store)
  (builtin : Builtin)

/-- An operation has evaluated some operands one after the other, and has their values. -/
inductive Reaches : (used : List Expr) → (values : List Value) → (middle : Store) → Prop
  | start : Reaches [] [] start
  | next {used : List Expr} {values : List Value} {middle after : Store} {operand : Expr}
      {value : Value} (reached : Reaches used values middle)
      (demands : used ++ [operand] <+: builtin.demanded args values)
      (evaluated : (eval operand env).runOn middle = (.ok value, after))
      (accepted : builtin.refusal? used.length value = none) :
      Reaches (used ++ [operand]) (values ++ [value]) after

/-- How a call ends: an operand fails, or its value is refused, or all that is demanded has been
evaluated. -/
inductive EndsCall : Except RunError Value × Store → Prop
  | fails {used : List Expr} {values : List Value} {middle after : Store} {operand : Expr}
      {error : RunError} (reached : Reaches eval env args start builtin used values middle)
      (demands : used ++ [operand] <+: builtin.demanded args values)
      (failed : (eval operand env).runOn middle = (.error error, after)) :
      EndsCall (.error error, after)
  | refuses {used : List Expr} {values : List Value} {middle after : Store} {operand : Expr}
      {value : Value} {error : RunError}
      (reached : Reaches eval env args start builtin used values middle)
      (demands : used ++ [operand] <+: builtin.demanded args values)
      (evaluated : (eval operand env).runOn middle = (.ok value, after))
      (refused : builtin.refusal? used.length value = some error) :
      EndsCall (.error error, after)
  | returns {used : List Expr} {values : List Value} {middle : Store}
      (reached : Reaches eval env args start builtin used values middle)
      (complete : builtin.demanded args values = used) (result : Value) :
      EndsCall (.ok result, builtin.effect env args values middle)

end

variable {eval : Evaluator} {env : Environment} {args : List Expr} {store : Store}
  {builtin : Builtin} {used rest : List Expr} {values : List Value} {middle : Store}
  {operand : Expr}

theorem Reaches.length_eq (reached : Reaches eval env args store builtin used values middle) :
    values.length = used.length := by
  induction reached with
  | start => rfl
  | next _ _ _ _ induction => simp [induction]

/-- An operation that leaves the store to its operands. -/
theorem EndsCall.of_quiet (reached : Reaches eval env args store builtin used values middle)
    (complete : builtin.demanded args values = used)
    (quiet : builtin.effect env args values middle = middle) (result : Value) :
    EndsCall eval env args store builtin (.ok result, middle) := by
  have ends := EndsCall.returns reached complete result
  rwa [quiet] at ends

theorem accumulate_cons (combine : Float → Float → Run Float) (start : Float) (operand : Operand)
    (rest : List Operand) :
    accumulate eval env combine start (operand :: rest) = (do
      let number ← operand.number eval env
      let total ← combine start number
      accumulate eval env combine total rest) := by
  simp [accumulate]

theorem all_cons (operand : Operand) (rest : List Operand) :
    all eval env (operand :: rest) = (do
      let value ← operand.value eval env
      if !value.isTruthy then pure (.bool false) else all eval env rest) := by
  rw [all]
  congr
  funext value
  cases value.isTruthy <;> rfl

namespace Reaches

variable (reached : Reaches eval env args store builtin used values middle)

include reached

theorem bind (demands : used ++ [operand] <+: builtin.demanded args values)
    {next : Value → Run Value}
    (refuses : ∀ value after error, builtin.refusal? used.length value = some error →
      (next value).runOn after = (.error error, after))
    (goesOn : ∀ value after, builtin.refusal? used.length value = none →
      Reaches eval env args store builtin (used ++ [operand]) (values ++ [value]) after →
      EndsCall eval env args store builtin ((next value).runOn after)) :
    EndsCall eval env args store builtin ((eval operand env >>= next).runOn middle) := by
  rcases evaluated : (eval operand env).runOn middle with ⟨error | value, after⟩
  · rw [Run.runOn_bind_error evaluated]
    exact .fails reached demands evaluated
  · rw [Run.runOn_bind_ok evaluated]
    cases refused : builtin.refusal? used.length value with
    | none => exact goesOn value after refused (.next reached demands evaluated refused)
    | some error =>
        rw [refuses value after error refused]
        exact .refuses reached demands evaluated refused

theorem bind_value (plain : builtin.isNumeric = false)
    (demands : used ++ [operand] <+: builtin.demanded args values)
    {next : Value → Run Value}
    (goesOn : ∀ value after,
      Reaches eval env args store builtin (used ++ [operand]) (values ++ [value]) after →
      EndsCall eval env args store builtin ((next value).runOn after)) :
    EndsCall eval env args store builtin ((eval operand env >>= next).runOn middle) := by
  apply reached.bind demands
  · intro value after error refused
    simp [refusal?, plain] at refused
  · intro value after _
    exact goesOn value after

theorem bind_number (numeric : builtin.isNumeric = true)
    (demands : used ++ [operand] <+: builtin.demanded args values)
    {next : Float → Run Value}
    (divides : builtin.isDivision = true → 0 < used.length → ∀ number after,
      (number == 0) = true → (next number).runOn after = (.error .divisionByZero, after))
    (goesOn : ∀ number value after,
      Reaches eval env args store builtin (used ++ [operand]) (values ++ [value]) after →
      (builtin.isDivision = true → 0 < used.length → (number == 0) = false) →
      EndsCall eval env args store builtin ((next number).runOn after)) :
    EndsCall eval env args store builtin
      ((Operand.number eval env ⟨operand, none⟩ >>= next).runOn middle) := by
  change EndsCall eval env args store builtin
    (((eval operand env >>= fun value => Run.ofExcept value.toNumber) >>= next).runOn middle)
  rw [bind_assoc]
  apply reached.bind demands
  · intro value after error refused
    cases converted : value.toNumber with
    | error other =>
        simp only [refusal?, numeric, converted, if_true] at refused
        cases refused
        rfl
    | ok number =>
        simp only [refusal?, numeric, converted, if_true] at refused
        split at refused
        · next zero =>
            cases refused
            exact divides zero.1 zero.2.1 number after zero.2.2
        · cases refused
  · intro value after accepted further
    cases converted : value.toNumber with
    | error other => simp [refusal?, numeric, converted] at accepted
    | ok number =>
        apply goesOn number value after further
        intro division later
        simpa [refusal?, numeric, converted, division, later] using accepted

/-! ## Rows of operands -/

omit reached in
theorem prefix_demanded (strict : ∀ values, builtin.demanded args values = args)
    (split : args = used ++ operand :: rest) :
    used ++ [operand] <+: builtin.demanded args values := by
  rw [strict, split]
  exact ⟨rest, by simp⟩

theorem accumulate (numeric : builtin.isNumeric = true)
    (strict : ∀ values, builtin.demanded args values = args)
    (quiet : ∀ values store, builtin.effect env args values store = store)
    {combine : Float → Float → Run Float} {result : Float → Float → Float}
    (combines : ∀ total number, combine total number =
      if builtin.isDivision ∧ number == 0 then throw .divisionByZero
      else pure (result total number))
    (divisors : builtin.isDivision = true → 0 < used.length) (split : args = used ++ rest)
    (total : Float) :
    EndsCall eval env args store builtin
      ((Builtin.accumulate eval env combine total (rest.map (⟨·, none⟩))).runOn middle) := by
  induction rest generalizing used values middle total with
  | nil =>
      rw [List.append_nil] at split
      exact .of_quiet reached ((strict values).trans split) (quiet values middle) (.number total)
  | cons operand rest induction =>
      rw [List.map_cons, accumulate_cons]
      apply reached.bind_number numeric (prefix_demanded strict split)
      · intro division _ number after zero
        rw [combines, if_pos ⟨division, zero⟩]
        rfl
      · intro number value after further nonzero
        have combined : combine total number = pure (result total number) := by
          rw [combines, if_neg]
          intro zero
          exact absurd zero.2 (by simp [nonzero zero.1 (divisors zero.1)])
        rw [combined, pure_bind]
        exact induction further (by simp) (by simpa using split) (result total number)

theorem bind_values (plain : builtin.isNumeric = false)
    (strict : ∀ values, builtin.demanded args values = args) (split : args = used ++ rest)
    (next : List Value → Run Value)
    (goesOn : ∀ values after, Reaches eval env args store builtin args values after →
      EndsCall eval env args store builtin ((next values).runOn after)) :
    EndsCall eval env args store builtin
      ((Operand.values eval env (rest.map (⟨·, none⟩)) >>= fun others =>
        next (values ++ others)).runOn middle) := by
  induction rest generalizing used values middle with
  | nil =>
      rw [List.append_nil] at split
      rw [← split] at reached
      simpa [Operand.values] using goesOn values middle reached
  | cons operand rest induction =>
      have unrolled : (Operand.values eval env ((operand :: rest).map (⟨·, none⟩)) >>= fun others =>
          next (values ++ others)) =
          eval operand env >>= fun value =>
            Operand.values eval env (rest.map (⟨·, none⟩)) >>= fun others =>
              next (values ++ [value] ++ others) := by
        simp [Operand.values, Operand.value]
      rw [unrolled]
      apply reached.bind_value plain (prefix_demanded strict split)
      intro value after further
      exact induction further (by simpa using split)

theorem demanded_of_passed {stops : Value → Bool}
    (upTo : ∀ values, builtin.demanded args values =
      args.take ((values.takeWhile (!stops ·)).length + 1))
    (passed : ∀ value ∈ values, stops value = false) :
    builtin.demanded args values = args.take (used.length + 1) := by
  rw [upTo, List.takeWhile_eq_self_iff.mpr (by simpa using passed), reached.length_eq]

/-- A search ends at the first value that it stops for. -/
theorem search (plain : builtin.isNumeric = false) {stops : Value → Bool}
    (upTo : ∀ values, builtin.demanded args values =
      args.take ((values.takeWhile (!stops ·)).length + 1))
    (quiet : ∀ values store, builtin.effect env args values store = store)
    {loop : List Operand → Run Value} {found missing : Value} (nil : loop [] = pure missing)
    (cons : ∀ operand rest, loop (operand :: rest) = do
      let value ← operand.value eval env
      if stops value then pure found else loop rest)
    (passed : ∀ value ∈ values, stops value = false) (split : args = used ++ rest) :
    EndsCall eval env args store builtin ((loop (rest.map (⟨·, none⟩))).runOn middle) := by
  induction rest generalizing used values middle with
  | nil =>
      have whole : args.take (used.length + 1) = used := by
        rw [split, List.append_nil, List.take_of_length_le (Nat.le_succ _)]
      have complete := (reached.demanded_of_passed upTo passed).trans whole
      rw [List.map_nil, nil]
      exact .of_quiet reached complete (quiet values middle) missing
  | cons operand rest induction =>
      have first : args.take (used.length + 1) = used ++ [operand] := by
        rw [split, List.take_length_add_append]
        rfl
      have demands := (reached.demanded_of_passed upTo passed).trans first
      rw [List.map_cons, cons]
      apply reached.bind_value plain (demands ▸ List.prefix_refl _)
      intro value after further
      cases stop : stops value with
      | true =>
          have complete : builtin.demanded args (values ++ [value]) = used ++ [operand] := by
            rw [upTo, List.takeWhile_append_of_pos (by simpa using passed),
              List.takeWhile_cons_of_neg (by simp [stop]), List.append_nil, reached.length_eq,
              first]
          exact .of_quiet further complete (quiet _ after) found
      | false =>
          apply induction further _ (by simpa using split)
          simpa [or_imp, forall_and, stop] using passed

end Reaches

/-! ## Operations -/

variable {keyword : String}

theorem length_eq_of_not_rejected {count : Nat} (accepted : builtin.rejection? keyword args = none)
    (counted : builtin.operandCount? = some count) : args.length = count := by
  unfold rejection? at accepted
  split at accepted
  · cases accepted
  · next right => simpa [counted] using right

theorem runOn_run_of_rejection? {error : RunError}
    (rejected : builtin.rejection? keyword args = some error) :
    (builtin.run eval env keyword (args.map (⟨·, none⟩))).runOn store = (.error error, store) := by
  unfold rejection? at rejected
  split at rejected
  · next wrong =>
      cases rejected
      cases counted : builtin.operandCount? with
      | none => simp [counted] at wrong
      | some count =>
          have different : (args.map fun arg => Operand.mk arg none).length ≠ count := by
            simpa [counted] using wrong
          rw [run_of_length_ne eval env keyword counted different, List.length_map]
          rfl
  · next right =>
      split at rejected
      · next target first =>
          have two : args.length = 2 := by
            simpa [operandCount?, arity] using right
          rcases List.length_eq_two.mp two with ⟨_, value, rfl⟩
          cases first
          split at rejected
          · cases rejected
          · next unnamed =>
              cases rejected
              have text : target.text? = none := by simpa using unnamed
              simp [run, assignTo, text]
      · cases rejected

theorem endsCall_run (several : 2 ≤ args.length)
    (accepted : builtin.rejection? keyword args = none) :
    EndsCall eval env args store builtin
      ((builtin.run eval env keyword (args.map (⟨·, none⟩))).runOn store) := by
  have fresh : Reaches eval env args store builtin [] [] store := .start
  have two (counted : builtin.operandCount? = some 2) : ∃ left right, args = [left, right] :=
    List.length_eq_two.mp (length_eq_of_not_rejected accepted counted)
  have notOne (counted : builtin.operandCount? = some 1) : False := by
    have one := length_eq_of_not_rejected accepted counted
    omega
  cases builtin with
  | add =>
      exact fresh.accumulate rfl (fun _ => rfl) (fun _ _ => rfl) (fun _ _ => rfl) nofun rfl 0
  | multiply =>
      exact fresh.accumulate rfl (fun _ => rfl) (fun _ _ => rfl) (fun _ _ => rfl) nofun rfl 1
  | subtract =>
      rcases args with _ | ⟨first, _ | ⟨second, rest⟩⟩
      · cases several
      · simp at several
      · apply fresh.bind_number rfl ⟨_, rfl⟩ nofun
        intro number value after further _
        exact further.accumulate rfl (fun _ => rfl) (fun _ _ => rfl) (fun _ _ => rfl) nofun rfl
          number
  | divide =>
      have combines (total divisor : Float) : (quotient total divisor : Run Float) =
          if divide.isDivision ∧ divisor == 0 then throw .divisionByZero
          else pure (total / divisor) := by
        simp [quotient, isDivision]
      rcases args with _ | ⟨first, rest⟩
      · cases several
      · apply fresh.bind_number rfl ⟨_, rfl⟩ nofun
        intro number value after further _
        exact further.accumulate rfl (fun _ => rfl) (fun _ _ => rfl) combines (fun _ => by simp) rfl
          number
  | remainder =>
      rcases two rfl with ⟨left, right, rfl⟩
      apply fresh.bind_number rfl ⟨_, rfl⟩ nofun
      intro dividend leftValue middle further _
      apply further.bind_number rfl ⟨_, rfl⟩
      · intro _ _ divisor after zero
        simp [remainderOf, zero]
      · intro divisor rightValue after complete nonzero
        simp only [remainderOf, nonzero rfl (by simp)]
        exact .of_quiet complete rfl rfl _
  | compare comparison =>
      rcases two rfl with ⟨left, right, rfl⟩
      apply fresh.bind_number rfl ⟨_, rfl⟩ nofun
      intro leftNumber leftValue middle further _
      apply further.bind_number rfl ⟨_, rfl⟩ nofun
      intro rightNumber rightValue after complete _
      exact .of_quiet complete rfl rfl _
  | equal | unequal =>
      rcases two rfl with ⟨left, right, rfl⟩
      apply fresh.bind_value rfl ⟨_, rfl⟩
      intro leftValue middle further
      apply further.bind_value rfl ⟨_, rfl⟩
      intro rightValue after complete
      exact .of_quiet complete rfl rfl _
  | and =>
      have demands (values : List Value) : and.demanded args values =
          args.take ((values.takeWhile fun value => !!value.isTruthy).length + 1) := by
        simp [demanded]
      exact fresh.search rfl demands (fun _ _ => rfl) rfl all_cons nofun rfl
  | or =>
      exact fresh.search rfl (fun _ => rfl) (fun _ _ => rfl) rfl (fun _ _ => rfl) nofun rfl
  | choose =>
      rcases List.length_eq_three.mp (length_eq_of_not_rejected accepted rfl) with
        ⟨condition, consequent, alternative, rfl⟩
      apply fresh.bind_value rfl ⟨_, rfl⟩
      intro value middle further
      have chosen : (if value.isTruthy then eval consequent env else eval alternative env) =
          eval (if value.isTruthy then consequent else alternative) env >>= pure := by
        rw [bind_pure]
        split <;> rfl
      change EndsCall _ _ _ _ _ (Run.runOn (ite _ (eval consequent env) (eval alternative env)) _)
      rw [chosen]
      apply further.bind_value rfl ⟨_, rfl⟩
      intro result after complete
      exact .of_quiet complete rfl rfl result
  | list =>
      apply fresh.bind_values rfl (fun _ => rfl) rfl fun values => pure (.list values)
      intro values after complete
      exact .of_quiet complete rfl rfl _
  | concat =>
      apply fresh.bind_values rfl (fun _ => rfl) rfl fun values =>
        pure (.list (values.flatMap spliced))
      intro values after complete
      exact .of_quiet complete rfl rfl _
  | print =>
      apply fresh.bind_values rfl (fun _ => rfl) rfl printLine
      intro values after complete
      exact .returns complete rfl _
  | assign =>
      rcases two rfl with ⟨target, operand, rfl⟩
      cases text : target.text? with
      | none => simp [rejection?, operandCount?, arity, text] at accepted
      | some name =>
          have opened : assignTo eval env ⟨target, none⟩ ⟨operand, none⟩ =
              eval operand env >>= fun value => do
                modify (·.define env name value)
                return value := by
            simp [assignTo, Operand.value, text]
          simp only [List.map_cons, List.map_nil, run, opened]
          apply fresh.bind_value rfl ⟨_, rfl⟩
          intro value after complete
          have ends := EndsCall.returns complete rfl value
          simp only [effect, List.head?_cons, Option.bind_some, text, List.nil_append] at ends
          exact ends
  | not | firstItem | otherItems | length => exact (notOne rfl).elim

end Builtin

theorem Eval.runOn_step_builtin {eval : Evaluator} {env : Environment} {store : Store}
    {head : Expr} {keyword : String} {builtin : Builtin} {args : List Expr}
    (named : head.text? = some keyword) (known : Builtin.ofKeyword? keyword = some builtin)
    (unbound : ∀ callee, store.lookup? env keyword ≠ some (.function callee))
    (several : 2 ≤ args.length) :
    (step eval (.list (head :: args)) env).runOn store =
      (builtin.run eval env keyword (args.map (⟨·, none⟩))).runOn store := by
  rcases args with _ | ⟨first, _ | ⟨second, rest⟩⟩
  · cases several
  · simp at several
  · simp only [step, list, named]
    rw [listNamed, Run.runOn_bind_ok (Run.runOn_get store)]
    dsimp only
    rw [runOn_callNamed_builtin unbound, callBuiltin, known]

/-- An operation of two or more operands that its keyword stands for turns them all down, or goes
through them from left to right and stops where it can or must. -/
theorem Eval.operands_evaluated_in_order {eval : Evaluator} {env : Environment} {store : Store}
    {head : Expr} {keyword : String} {builtin : Builtin} {args : List Expr}
    (named : head.text? = some keyword) (known : Builtin.ofKeyword? keyword = some builtin)
    (unbound : ∀ callee, store.lookup? env keyword ≠ some (.function callee))
    (several : 2 ≤ args.length) :
    let ran := (step eval (.list (head :: args)) env).runOn store
    (∀ error, builtin.rejection? keyword args = some error → ran = (.error error, store)) ∧
      (builtin.rejection? keyword args = none → builtin.EndsCall eval env args store ran) ∧
      ∀ values, (builtin.demanded args values).Sublist args := by
  intro ran
  rw [show ran = _ from runOn_step_builtin named known unbound several]
  refine ⟨?_, ?_, ?_⟩
  · intro error rejected
    exact Builtin.runOn_run_of_rejection? rejected
  · exact Builtin.endsCall_run several
  · intro values
    exact Builtin.demanded_sublist args values builtin

/-- The keyword is bound to a text, and the third operand would print a line. -/
theorem Eval.operands_evaluated_in_order_stopped :
    let line (word : String) : Expr := .list [.atom (.symbol "print"), .atom (.symbol word)]
    let args : List Expr := [line "one", .atom (.bool false), line "two"]
    let store : Store := ⟨#[[("and", .string "word")]], 0, #[], #[]⟩
    let ran := (step (within 9 8) (.list (.atom (.string "and") :: args)) .root).runOn store
    (∀ callee, store.lookup? .root "and" ≠ some (.function callee)) ∧
      Builtin.and.rejection? "and" args = none ∧ ran.2.printed = #["one"] ∧
      Builtin.and.EndsCall (within 9 8) .root args store ran := by
  intro line args store ran
  have unbound : ∀ callee, store.lookup? .root "and" ≠ some (.function callee) := nofun
  have named : (Expr.atom (.string "and")).text? = some "and" := rfl
  have known : Builtin.ofKeyword? "and" = some .and := rfl
  have several : 2 ≤ args.length := by decide
  exact ⟨unbound, rfl, by decide, (operands_evaluated_in_order named known unbound several).2.1 rfl⟩

end RuleLisp
