import RuleLisp.Proofs.Atom
import RuleLisp.Proofs.Eval.OperandOrder
import RuleLisp.Proofs.Number.Pattern

/-! # Numeric operands

A number can be written as a literal, or as a quoted text that is a literal with blanks around it.
Which texts these are, and which number each of them stands for, is the same in both places. An
operation on numbers sees an operand only through its number, so it makes no difference which way
the operand is written.
-/

namespace RuleLisp

/-! ## Blanks around a text -/

namespace Text

def AllBlank (text : String) : Prop :=
  text.toList.all isBlank = true

def IsTrimmed (text : String) : Prop :=
  text.toList.head?.any isBlank = false ∧ text.toList.getLast?.any isBlank = false

instance (text : String) : Decidable (AllBlank text) :=
  inferInstanceAs (Decidable (_ = true))

instance (text : String) : Decidable (IsTrimmed text) :=
  inferInstanceAs (Decidable (_ ∧ _))

theorem trimStart_append {front : List Char} (blank : front.all isBlank = true)
    (text : List Char) : trimStart (front ++ text) = trimStart text :=
  List.dropWhile_append_of_pos (List.all_eq_true.mp blank)

theorem trimStart_eq_self {text : List Char} (trimmed : text.head?.any isBlank = false) :
    trimStart text = text := by
  cases text with
  | nil => rfl
  | cons first rest =>
      apply List.dropWhile_cons_of_neg
      rw [show isBlank first = false from trimmed]
      exact Bool.false_ne_true

theorem trimChars_padded {front text back : String} (frontBlank : AllBlank front)
    (backBlank : AllBlank back) (trimmed : IsTrimmed text) :
    trimChars (front ++ text ++ back).toList = text.toList := by
  have backReversed : back.toList.reverse.all isBlank = true :=
    List.all_reverse.trans backBlank
  have textReversed : text.toList.reverse.head?.any isBlank = false := by
    rw [List.head?_reverse]
    exact trimmed.2
  rw [String.toList_append, String.toList_append, List.append_assoc, trimChars,
    trimStart_append frontBlank]
  cases chars : text.toList with
  | nil =>
      have nothing : trimStart back.toList = [] :=
        List.dropWhile_eq_nil_iff.mpr (List.all_eq_true.mp backBlank)
      rw [List.nil_append, nothing]
      rfl
  | cons first rest =>
      have starts : (text.toList ++ back.toList).head?.any isBlank = false := by
        have head := trimmed.1
        rw [chars] at head ⊢
        exact head
      rw [← chars, trimStart_eq_self starts, List.reverse_append, trimStart_append backReversed,
        trimStart_eq_self textReversed, List.reverse_reverse]

end Text

/-! ## The number of a text -/

/-- A text stands for a number exactly if it is a literal. -/
theorem Number.exists_value_iff {text : List Char} :
    (∃ number literal, Literal.read? text = some literal ∧ literal.value = number) ↔
      isNumeric text = true := by
  rw [isNumeric, Option.isSome_iff_exists]
  constructor
  · rintro ⟨_, literal, read, _⟩
    exact ⟨literal, read⟩
  · rintro ⟨literal, read⟩
    exact ⟨literal.value, literal, read, rfl⟩

theorem Atom.ofWord?_eq_number_iff {word : String} {number : Float} :
    ofWord? word = some (.number number) ↔
      ∃ literal, Number.Literal.read? word.toList = some literal ∧ literal.value = number := by
  constructor
  · intro accepted
    rcases render_or_literal_of_ofWord? accepted with ⟨_, notNumber⟩ | ⟨literal, read, same⟩
    · exact absurd rfl (notNumber number)
    · cases same
      exact ⟨literal, read, rfl⟩
  · rintro ⟨literal, read, rfl⟩
    exact ofWord?_of_read? read

theorem Value.toNumber_string_eq_ok_iff {text : String} {number : Float} :
    (Value.string text).toNumber = .ok number ↔
      ∃ literal, Number.Literal.read? (Text.trimChars text.toList) = some literal ∧
        literal.value = number := by
  rw [toNumber]
  cases Number.Literal.read? (Text.trimChars text.toList) with
  | none => simp
  | some literal => simp

/-- Neither literals nor blanks have a quotation mark among their characters. -/
theorem Number.mark_not_mem_padded {front text back : String} {literal : Literal}
    (frontBlank : Text.AllBlank front) (backBlank : Text.AllBlank back)
    (read : Literal.read? text.toList = some literal) :
    '"' ∉ (front ++ text ++ back).toList := by
  have unblank {blanks : String} (blank : Text.AllBlank blanks) : '"' ∉ blanks.toList :=
    fun member => absurd (List.all_eq_true.mp blank '"' member) (by decide)
  have unread : '"' ∉ text.toList := by
    intro member
    rcases Literal.mem_of_read? read member with digit | point | sign
    · cases digit
    · cases point
    · cases sign
  rw [String.toList_append, String.toList_append, List.mem_append, List.mem_append, not_or, not_or]
  exact ⟨⟨unblank frontBlank, unread⟩, unblank backBlank⟩

/-! ## Operands as numbers -/

namespace Builtin

variable {eval : Evaluator} {env : Environment} {operands twins : List Operand}

/-- Two operands with the same number, and the same way to it. -/
def SameNumber (eval : Evaluator) (env : Environment) (operand twin : Operand) : Prop :=
  operand.number eval env = twin.number eval env

variable (same : List.Forall₂ (SameNumber eval env) operands twins)
include same

theorem accumulate_congr (combine : Float → Float → Run Float) (start : Float) :
    accumulate eval env combine start operands = accumulate eval env combine start twins := by
  induction same generalizing start with
  | nil => rfl
  | cons first _ induction =>
      rw [accumulate_cons, accumulate_cons, first]
      simp only [induction]

/-- An operation that takes exactly two operands. -/
theorem run_congr_of_two {builtin : Builtin} (counted : builtin.operandCount? = some 2)
    (keyword : String)
    (two : ∀ {left leftTwin right rightTwin}, SameNumber eval env left leftTwin →
      SameNumber eval env right rightTwin →
      builtin.run eval env keyword [left, right] =
        builtin.run eval env keyword [leftTwin, rightTwin]) :
    builtin.run eval env keyword operands = builtin.run eval env keyword twins := by
  have lengths := same.length_eq
  by_cases pair : operands.length = 2
  · rcases same with _ | ⟨left, _ | ⟨right, _ | _⟩⟩
    · cases pair
    · cases pair
    · exact two left right
    · cases pair
  · rw [run_of_length_ne eval env keyword counted pair,
      run_of_length_ne eval env keyword counted (lengths ▸ pair), lengths]

/-- An operation on numbers sees its operands only as numbers. -/
theorem run_congr {builtin : Builtin} (numeric : builtin.isNumeric = true) (keyword : String) :
    builtin.run eval env keyword operands = builtin.run eval env keyword twins := by
  cases builtin with
  | add | multiply => exact accumulate_congr same _ _
  | subtract =>
      rcases same with _ | ⟨first, _ | ⟨second, rest⟩⟩
      · rfl
      · rw [run, run, first]
      · have opened (operand next : Operand) (others : List Operand) :
            subtract.run eval env keyword (operand :: next :: others) = (do
              accumulate eval env (fun difference operand => return difference - operand)
                (← operand.number eval env) (next :: others)) :=
          rfl
        rw [opened, opened, first]
        simp only [accumulate_congr (.cons second rest)]
  | divide =>
      rcases same with _ | ⟨first, rest⟩
      · rfl
      · rw [run, run, first]
        simp only [accumulate_congr rest]
  | remainder =>
      apply run_congr_of_two same rfl
      intro _ _ _ _ left right
      rw [run, run, left, right]
  | compare comparison =>
      apply run_congr_of_two same rfl
      intro _ _ _ _ left right
      rw [run, run, left, right]
  | equal | unequal | and | or | not | choose | list | firstItem | otherItems | concat | length
  | assign | print => cases numeric

end Builtin

namespace Eval

/-- Every call of an operation on numbers, with other operands before and after, comes to the same
with either of two atoms as an operand. -/
def Interchangeable (word twin : Atom) : Prop :=
  ∀ (limit remaining : Nat) (env : Environment) (store : Store) (head : Expr) (keyword : String)
    (builtin : Builtin) (before after : List Expr),
    head.text? = some keyword → Builtin.ofKeyword? keyword = some builtin →
    builtin.isNumeric = true → (∀ callee, store.lookup? env keyword ≠ some (.function callee)) →
    (within limit remaining (.list (head :: (before ++ .atom word :: after))) env).runOn store =
      (within limit remaining (.list (head :: (before ++ .atom twin :: after))) env).runOn store

section

variable {word twin : Atom} (limit : Nat) (env : Environment)

theorem within_atom (constant : word.symbol? = none) (remaining : Nat) :
    within limit (remaining + 1) (.atom word) env = pure word.value := by
  cases word with
  | symbol => cases constant
  | null | bool | number | string => rfl

theorem field?_value_atom (word : Atom) (name : String) : word.value.field? name = none := by
  cases word <;> rfl

variable (constant : word.symbol? = none) (twinConstant : twin.symbol? = none)
  (same : word.value.toNumber = twin.value.toNumber)
include constant twinConstant same

theorem sameNumber_atom (remaining : Nat) :
    Builtin.SameNumber (within limit remaining) env ⟨.atom word, none⟩ ⟨.atom twin, none⟩ := by
  cases remaining with
  | zero => rfl
  | succ remaining =>
      simp only [Builtin.SameNumber, Operand.number, Operand.value, pure_bind, same,
        within_atom limit env constant, within_atom limit env twinConstant]

variable {keyword : String} {builtin : Builtin} {store : Store}
  (known : Builtin.ofKeyword? keyword = some builtin) (numeric : builtin.isNumeric = true)
  (unbound : ∀ callee, store.lookup? env keyword ≠ some (.function callee))
include known numeric unbound

/-- The value of a lone operand is asked for a field before the operation gets it. -/
theorem runOn_fieldOrCall_congr (remaining : Nat) :
    (fieldOrCall (within limit remaining) env keyword (.atom word)).runOn store =
      (fieldOrCall (within limit remaining) env keyword (.atom twin)).runOn store := by
  cases remaining with
  | zero => rfl
  | succ remaining =>
      have sameNumber : Builtin.SameNumber (within limit (remaining + 1)) env
          ⟨.atom word, some word.value⟩ ⟨.atom twin, some twin.value⟩ := by
        simp only [Builtin.SameNumber, Operand.number, Operand.value, pure_bind, same]
      rw [fieldOrCall, fieldOrCall, within_atom limit env constant,
        within_atom limit env twinConstant, pure_bind, pure_bind, field?_value_atom,
        field?_value_atom]
      dsimp only
      rw [runOn_callNamed_builtin unbound, runOn_callNamed_builtin unbound, callBuiltin,
        callBuiltin, known]
      dsimp only
      rw [Builtin.run_congr (.cons sameNumber .nil) numeric]

theorem runOn_listNamed_congr (remaining : Nat) :
    (listNamed (within limit remaining) env keyword [.atom word]).runOn store =
      (listNamed (within limit remaining) env keyword [.atom twin]).runOn store := by
  rw [runOn_listNamed_single, runOn_listNamed_single,
    runOn_fieldOrCall_congr limit env constant twinConstant same known numeric unbound,
    runOn_callNamed_builtin unbound, runOn_callNamed_builtin unbound, callBuiltin, callBuiltin,
    known]
  dsimp only
  rw [Builtin.run_congr
    (.cons (sameNumber_atom limit env constant twinConstant same remaining) .nil) numeric]

end

theorem interchangeable_of_toNumber {word twin : Atom} (constant : word.symbol? = none)
    (twinConstant : twin.symbol? = none) (same : word.value.toNumber = twin.value.toNumber) :
    Interchangeable word twin := by
  intro limit remaining env store head keyword builtin before after named known numeric unbound
  cases remaining with
  | zero => rfl
  | succ remaining =>
      rw [within]
      -- A lone operand is evaluated before it is known that the call is one of an operation.
      by_cases alone : before = [] ∧ after = []
      · rcases alone with ⟨rfl, rfl⟩
        simp only [step, list, named, List.nil_append]
        exact runOn_listNamed_congr limit env constant twinConstant same known numeric unbound _
      · have several (arg : Expr) : 2 ≤ (before ++ arg :: after).length := by
          rw [List.length_append, List.length_cons]
          rcases not_and_or.mp alone with nonempty | nonempty
          · have positive := List.length_pos_of_ne_nil nonempty
            omega
          · have positive := List.length_pos_of_ne_nil nonempty
            omega
        rw [runOn_step_builtin named known unbound (several _),
          runOn_step_builtin named known unbound (several _)]
        congr 1
        apply Builtin.run_congr _ numeric
        rw [List.map_append, List.map_append, List.map_cons, List.map_cons]
        have others (args : List Expr) : List.Forall₂ (Builtin.SameNumber (within limit remaining)
            env) (args.map (⟨·, none⟩)) (args.map (⟨·, none⟩)) :=
          List.forall₂_same.mpr fun _ _ => rfl
        exact List.rel_append (others before) (.cons
          (sameNumber_atom limit env constant twinConstant same remaining) (others after))

end Eval

/-! ## Literals and quoted texts -/

/-- The texts that stand for numbers match one pattern, whether they are words or quoted texts with
blanks around them. Both stand for the same number, and for operations on numbers they are the same
operand. -/
theorem numeric_texts_agree (text : String) :
    (Number.isNumeric text.toList = true ↔ text.toList ∈ Number.literalPattern.matches') ∧
    ((∃ number, Atom.ofWord? text = some (.number number)) ↔
      Number.isNumeric text.toList = true) ∧
    ∀ front back, Text.AllBlank front → Text.AllBlank back → Text.IsTrimmed text →
      let padded := front ++ text ++ back
      ((∃ number, (Value.string padded).toNumber = .ok number) ↔
        Number.isNumeric text.toList = true) ∧
      ∀ number, ((Value.string padded).toNumber = .ok number ↔
          Atom.ofWord? text = some (.number number)) ∧
        (Atom.ofWord? text = some (.number number) →
          Atom.ofWord? ("\"" ++ padded ++ "\"") = some (.string padded) ∧
            Eval.Interchangeable (.number number) (.string padded)) := by
  refine ⟨Number.isNumeric_iff, ?_, ?_⟩
  · simp only [Atom.ofWord?_eq_number_iff]
    exact Number.exists_value_iff
  · intro front back frontBlank backBlank trimmed padded
    have cut : Text.trimChars padded.toList = text.toList :=
      Text.trimChars_padded frontBlank backBlank trimmed
    simp only [Value.toNumber_string_eq_ok_iff, cut]
    refine ⟨Number.exists_value_iff, fun number => ⟨Atom.ofWord?_eq_number_iff.symm, ?_⟩⟩
    intro accepted
    rcases Atom.ofWord?_eq_number_iff.mp accepted with ⟨literal, read, value⟩
    refine ⟨Atom.ofWord?_quoted (Number.mark_not_mem_padded frontBlank backBlank read), ?_⟩
    apply Eval.interchangeable_of_toNumber rfl rfl
    exact (Value.toNumber_string_eq_ok_iff.mpr ⟨literal, cut ▸ read, value⟩).symm

/-- The blanks around the text are an ideographic space and the end of a line. -/
theorem numeric_texts_agree_padded :
    let number := Number.Literal.value ⟨true, "2".toList, "50".toList⟩
    Text.AllBlank "\u3000" ∧ Text.AllBlank "\n" ∧ Text.IsTrimmed "-2.50" ∧
      Atom.ofWord? "-2.50" = some (.number number) ∧
      (Value.string "\u3000-2.50\n").toNumber = .ok number ∧
      Eval.Interchangeable (.number number) (.string "\u3000-2.50\n") := by
  have frontBlank : Text.AllBlank "\u3000" := by decide
  have backBlank : Text.AllBlank "\n" := by decide
  have trimmed : Text.IsTrimmed "-2.50" := by decide
  have read : Number.Literal.read? "-2.50".toList = some ⟨true, "2".toList, "50".toList⟩ := by
    decide
  have accepted := Atom.ofWord?_of_read? read
  have agree := (numeric_texts_agree "-2.50").2.2 _ _ frontBlank backBlank trimmed
  exact ⟨frontBlank, backBlank, trimmed, accepted, (agree.2 _).1.mpr accepted,
    ((agree.2 _).2 accepted).2⟩

end RuleLisp
