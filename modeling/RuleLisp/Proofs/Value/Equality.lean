import RuleLisp.Proofs.Number.Bits
import RuleLisp.Proofs.Table
import RuleLisp.Proofs.Value

/-! # Equality of values

Equality follows the fields of two objects by lookup on one side only, and a number that is not a
number is not even equal to itself. It is symmetric and transitive all the same, and reflexive on
every value without such a number.
-/

namespace RuleLisp

/-! ## Functions -/

namespace Function

theorem same_self (callee : Function) : callee.same callee = true := by
  cases callee <;> simp [same]

theorem same_symm {callee other : Function} (equal : callee.same other = true) :
    other.same callee = true := by
  cases callee <;> cases other <;> simp_all [same]

theorem same_trans {callee other another : Function} (equal : callee.same other = true)
    (next : other.same another = true) : callee.same another = true := by
  cases callee <;> cases other <;> cases another <;> simp_all [same]

end Function

namespace Value

/-! ## Equality by parts -/

abbrev Equals (left right : Value) : Prop :=
  (left == right) = true

theorem forall₂_iff_rel_getElem? {α : Type} {related : α → α → Prop} {items others : List α} :
    List.Forall₂ related items others ↔
      ∀ place : Nat, Option.Rel related items[place]? others[place]? := by
  constructor
  · intro pairs
    induction pairs with
    | nil => exact fun _ => .none
    | cons first _ induction =>
        intro place
        cases place with
        | zero => exact .some first
        | succ place => exact induction place
  · intro equal
    induction items generalizing others with
    | nil =>
        cases others with
        | nil => exact .nil
        | cons other others => cases equal 0
    | cons item rest induction =>
        cases others with
        | nil => cases equal 0
        | cons other others =>
            obtain ⟨first⟩ := equal 0
            exact .cons first (induction fun place => equal (place + 1))

theorem beqItems_iff {items others : List Value} :
    beqItems items others = true ↔ List.Forall₂ Equals items others := by
  induction items generalizing others with
  | nil => cases others <;> simp [beqItems]
  | cons item rest induction =>
      cases others with
      | nil => simp [beqItems]
      | cons other others =>
          rw [beqItems, Bool.and_eq_true, induction, List.forall₂_cons]
          rfl

theorem beqFields_iff {fields others : List (String × Value)} :
    beqFields fields others = true ↔ ∀ field ∈ fields,
      ∃ value, Table.get? field.1 others = some value ∧ Equals field.2 value := by
  induction fields with
  | nil => simp [beqFields]
  | cons field rest induction =>
      rw [beqFields, Bool.and_eq_true, induction, List.forall_mem_cons]
      apply and_congr_left'
      cases Table.get? field.1 others with
      | none => simp
      | some value => simp [BEq.beq]

theorem number_beq_iff {value other : Float} :
    Equals (.number value) (.number other) ↔ (value == other) = true :=
  Iff.rfl

/-- Lists are equal if they have equal items at every place. -/
theorem list_beq_iff {items others : List Value} :
    Equals (.list items) (.list others) ↔
      ∀ place : Nat, Option.Rel Equals items[place]? others[place]? := by
  change Value.beq _ _ = true ↔ _
  rw [Value.beq, beqItems_iff, forall₂_iff_rel_getElem?]

theorem object_beq_iff_covered {fields others : List (String × Value)} :
    Equals (.object fields) (.object others) ↔ fields.length = others.length ∧
      ∀ field ∈ fields, ∃ value, Table.get? field.1 others = some value ∧
        Equals field.2 value := by
  change Value.beq _ _ = true ↔ _
  rw [Value.beq, Bool.and_eq_true, beq_iff_eq, beqFields_iff]

/-- Objects are equal if they have equal fields under every key. -/
theorem object_beq_iff {fields others : List (String × Value)}
    (distinct : (Table.keys fields).Nodup) (otherDistinct : (Table.keys others).Nodup) :
    Equals (.object fields) (.object others) ↔ ∀ key,
      Option.Rel Equals (Table.get? key fields) (Table.get? key others) := by
  rw [object_beq_iff_covered]
  constructor
  · rintro ⟨sameLength, covered⟩
    exact Table.rel_get?_of_length_eq distinct sameLength covered
  · intro equal
    refine ⟨Table.length_eq_of_rel_get? distinct otherDistinct equal, fun field member => ?_⟩
    have pair := equal field.1
    rw [Table.get?_of_mem distinct member] at pair
    exact Table.exists_of_rel_some pair

/-- What equality asks of two values and of their parts. -/
inductive Matches : Value → Value → Prop
  | null : Matches .null .null
  | bool (value : Bool) : Matches (.bool value) (.bool value)
  | number {value other : Float} (equal : (value == other) = true) :
      Matches (.number value) (.number other)
  | string (text : String) : Matches (.string text) (.string text)
  | list {items others : List Value}
      (equal : ∀ place : Nat, Option.Rel Equals items[place]? others[place]?) :
      Matches (.list items) (.list others)
  | object {fields others : List (String × Value)}
      (equal : ∀ key, Option.Rel Equals (Table.get? key fields) (Table.get? key others)) :
      Matches (.object fields) (.object others)
  | function {callee other : Function} (same : callee.same other = true) :
      Matches (.function callee) (.function other)

theorem Equals.matches {left right : Value} (distinct : left.HasDistinctKeys)
    (rightDistinct : right.HasDistinctKeys) (equal : Equals left right) : Matches left right := by
  cases distinct <;> cases rightDistinct <;> try cases equal
  case null => exact .null
  case bool.bool value other =>
    have same : value = other := beq_iff_eq.mp equal
    exact same ▸ .bool value
  case number.number value other => exact .number equal
  case string.string text other =>
    have same : text = other := beq_iff_eq.mp equal
    exact same ▸ .string text
  case list.list items _ others _ => exact .list (list_beq_iff.mp equal)
  case object.object fields distinct _ others otherDistinct _ =>
    exact .object ((object_beq_iff distinct otherDistinct).mp equal)
  case function.function callee other => exact .function equal

theorem Matches.equals {left right : Value} (distinct : left.HasDistinctKeys)
    (rightDistinct : right.HasDistinctKeys) (parts : Matches left right) : Equals left right := by
  cases parts with
  | null => rfl
  | bool value => exact beq_self_eq_true value
  | number equal => exact equal
  | string text => exact beq_self_eq_true text
  | list equal => exact list_beq_iff.mpr equal
  | object equal =>
      rcases distinct with _ | _ | _ | _ | _ | ⟨distinct, _⟩
      rcases rightDistinct with _ | _ | _ | _ | _ | ⟨otherDistinct, _⟩
      exact (object_beq_iff distinct otherDistinct).mpr equal
  | function same => exact same

/-! ## Symmetry and transitivity -/

theorem rel_imp_of_mem {α : Type} {related other : α → α → Prop} {first second : Option α}
    (pair : Option.Rel related first second)
    (imp : ∀ left ∈ first, ∀ right ∈ second, related left right → other left right) :
    Option.Rel other first second := by
  cases pair with
  | none => exact .none
  | some values => exact .some (imp _ rfl _ rfl values)

theorem rel_symm_of_mem {α : Type} {related : α → α → Prop} {first second : Option α}
    (pair : Option.Rel related first second)
    (symm : ∀ left ∈ first, ∀ right ∈ second, related left right → related right left) :
    Option.Rel related second first := by
  cases pair with
  | none => exact .none
  | some values => exact .some (symm _ rfl _ rfl values)

theorem rel_trans_of_mem {α : Type} {related : α → α → Prop} {first second third : Option α}
    (pair : Option.Rel related first second) (next : Option.Rel related second third)
    (trans : ∀ left ∈ first, ∀ middle ∈ second, ∀ right ∈ third,
      related left middle → related middle right → related left right) :
    Option.Rel related first third := by
  cases pair with
  | none =>
      cases next
      exact .none
  | some values =>
      obtain ⟨others⟩ := next
      exact .some (trans _ rfl _ rfl _ rfl values others)

theorem HasDistinctKeys.item {items : List Value} (distinct : (Value.list items).HasDistinctKeys)
    {place : Nat} {item : Value} (found : item ∈ items[place]?) :
    item ∈ items ∧ item.HasDistinctKeys := by
  rcases distinct with _ | _ | _ | _ | ⟨all⟩
  have member := List.mem_of_getElem? found
  exact ⟨member, all item member⟩

theorem HasDistinctKeys.field {fields : List (String × Value)}
    (distinct : (Value.object fields).HasDistinctKeys) {key : String} {value : Value}
    (found : value ∈ Table.get? key fields) :
    (key, value) ∈ fields ∧ value.HasDistinctKeys := by
  rcases distinct with _ | _ | _ | _ | _ | ⟨_, all⟩
  have member := Table.mem_of_get? found
  exact ⟨member, all _ member⟩

theorem Equals.symm {left right : Value} (distinct : left.HasDistinctKeys)
    (rightDistinct : right.HasDistinctKeys) (equal : Equals left right) : Equals right left := by
  induction left generalizing right with
  | null | bool | string =>
      cases equal.matches distinct rightDistinct
      exact equal
  | number value =>
      cases equal.matches distinct rightDistinct with
      | number parts => exact number_beq_iff.mpr (BEq.symm parts)
  | list items induction =>
      cases equal.matches distinct rightDistinct with
      | list parts =>
          apply list_beq_iff.mpr
          intro place
          apply rel_symm_of_mem (parts place)
          intro item found other foundOther
          have inside := distinct.item found
          exact induction item inside.1 inside.2 (rightDistinct.item foundOther).2
  | object fields induction =>
      cases equal.matches distinct rightDistinct with
      | object parts =>
          apply Matches.equals rightDistinct distinct
          apply Matches.object
          intro key
          apply rel_symm_of_mem (parts key)
          intro value found other foundOther
          have inside := distinct.field found
          exact induction _ inside.1 inside.2 (rightDistinct.field foundOther).2
  | function callee =>
      cases equal.matches distinct rightDistinct with
      | function same => exact Function.same_symm same

theorem Equals.trans {left middle right : Value} (distinct : left.HasDistinctKeys)
    (middleDistinct : middle.HasDistinctKeys) (rightDistinct : right.HasDistinctKeys)
    (equal : Equals left middle) (next : Equals middle right) : Equals left right := by
  induction left generalizing middle right with
  | null | bool | string =>
      cases equal.matches distinct middleDistinct
      exact next
  | number value =>
      cases equal.matches distinct middleDistinct with
      | number parts =>
          cases next.matches middleDistinct rightDistinct with
          | number others => exact number_beq_iff.mpr (BEq.trans parts others)
  | list items induction =>
      cases equal.matches distinct middleDistinct with
      | list parts =>
          cases next.matches middleDistinct rightDistinct with
          | list others =>
              apply list_beq_iff.mpr
              intro place
              apply rel_trans_of_mem (parts place) (others place)
              intro item found other foundOther another foundAnother
              have inside := distinct.item found
              exact induction item inside.1 inside.2 (middleDistinct.item foundOther).2
                (rightDistinct.item foundAnother).2
  | object fields induction =>
      cases equal.matches distinct middleDistinct with
      | object parts =>
          cases next.matches middleDistinct rightDistinct with
          | object others =>
              apply Matches.equals distinct rightDistinct
              apply Matches.object
              intro key
              apply rel_trans_of_mem (parts key) (others key)
              intro value found other foundOther another foundAnother
              have inside := distinct.field found
              exact induction _ inside.1 inside.2 (middleDistinct.field foundOther).2
                (rightDistinct.field foundAnother).2
  | function callee =>
      cases equal.matches distinct middleDistinct with
      | function same =>
          cases next.matches middleDistinct rightDistinct with
          | function others => exact Function.same_trans same others

/-! ## Reflexivity -/

inductive ContainsNaN : Value → Prop
  | number {value : Float} (nan : value.isNaN = true) : ContainsNaN (.number value)
  | item {items : List Value} {item : Value} (member : item ∈ items) (inside : ContainsNaN item) :
      ContainsNaN (.list items)
  | field {fields : List (String × Value)} {field : String × Value} (member : field ∈ fields)
      (inside : ContainsNaN field.2) : ContainsNaN (.object fields)

/-- The same value, up to the order of the fields in its objects at every depth. -/
inductive Reordered : Value → Value → Prop
  | same (value : Value) : Reordered value value
  | list {items others : List Value} (reordered : List.Forall₂ Reordered items others) :
      Reordered (.list items) (.list others)
  | object {fields moved others : List (String × Value)} (permuted : fields.Perm moved)
      (reordered : List.Forall₂ (Table.EntryRel Reordered) moved others) :
      Reordered (.object fields) (.object others)

theorem ContainsNaN.not_equals {value : Value} (contains : value.ContainsNaN) (other : Value) :
    ¬Equals value other := by
  induction contains generalizing other with
  | @number value nan =>
      intro equal
      cases other <;> try cases equal
      rw [Float.isNaN_eq_decide_eq_nan, decide_eq_true_eq] at nan
      subst nan
      rw [number_beq_iff, Float.nan_beq_eq_false] at equal
      cases equal
  | @item items item member inside induction =>
      intro equal
      cases other <;> try cases equal
      obtain ⟨place, found⟩ := List.mem_iff_getElem?.mp member
      have pair := list_beq_iff.mp equal place
      rw [found] at pair
      obtain ⟨twin, -, values⟩ := Table.exists_of_rel_some pair
      exact induction twin values
  | @field fields field member inside induction =>
      intro equal
      cases other <;> try cases equal
      obtain ⟨twin, -, values⟩ := (object_beq_iff_covered.mp equal).2 field member
      exact induction twin values

theorem Reordered.exists_list {items : List Value} {other : Value}
    (reordered : Reordered (.list items) other) :
    ∃ others, other = .list others ∧ List.Forall₂ Reordered items others := by
  cases reordered with
  | same => exact ⟨items, rfl, List.forall₂_same.mpr fun item _ => .same item⟩
  | list reordered => exact ⟨_, rfl, reordered⟩

theorem Reordered.exists_object {fields : List (String × Value)} {other : Value}
    (reordered : Reordered (.object fields) other) :
    ∃ moved others, other = .object others ∧ fields.Perm moved ∧
      Table.Rel Reordered moved others := by
  cases reordered with
  | same =>
      refine ⟨fields, fields, rfl, .refl fields, ?_⟩
      exact List.forall₂_same.mpr fun field _ => .mk field.1 (.same field.2)
  | object permuted reordered => exact ⟨_, _, rfl, permuted, reordered⟩

theorem Reordered.equals {value other : Value} (distinct : value.HasDistinctKeys)
    (free : ¬value.ContainsNaN) (reordered : Reordered value other) : Equals value other := by
  induction value generalizing other with
  | null =>
      cases reordered
      rfl
  | bool value =>
      cases reordered
      exact beq_self_eq_true value
  | number value =>
      cases reordered
      apply number_beq_iff.mpr
      apply Float.beq_self_iff.mpr
      intro nan
      apply free
      apply ContainsNaN.number
      rw [Float.isNaN_eq_decide_eq_nan, decide_eq_true nan]
  | string text =>
      cases reordered
      exact beq_self_eq_true text
  | list items induction =>
      obtain ⟨others, rfl, pairs⟩ := reordered.exists_list
      apply list_beq_iff.mpr
      intro place
      apply rel_imp_of_mem (forall₂_iff_rel_getElem?.mp pairs place)
      intro item found other _
      have inside := distinct.item found
      exact induction item inside.1 inside.2 fun contains => free (.item inside.1 contains)
  | object fields induction =>
      obtain ⟨moved, others, rfl, permuted, pairs⟩ := reordered.exists_object
      rcases distinct with _ | _ | _ | _ | _ | ⟨distinct, allDistinct⟩
      apply object_beq_iff_covered.mpr
      refine ⟨permuted.length_eq.trans pairs.length_eq, fun field member => ?_⟩
      have movedDistinct : (Table.keys moved).Nodup := (permuted.map Prod.fst).nodup distinct
      have pair := pairs.get? field.1
      rw [Table.get?_of_mem movedDistinct (permuted.mem_iff.mp member)] at pair
      obtain ⟨twin, found, reordered⟩ := Table.exists_of_rel_some pair
      have equal := induction field member (allDistinct field member)
        (fun contains => free (.field member contains)) reordered
      exact ⟨twin, found, equal⟩
  | function callee =>
      cases reordered
      exact Function.same_self callee

/-! ## What equal values have in common -/

variable {left right : Value}

theorem Matches.typeName_eq (parts : Matches left right) : left.typeName = right.typeName := by
  cases parts <;> rfl

theorem Matches.isTruthy_eq (parts : Matches left right) : left.isTruthy = right.isTruthy := by
  cases parts <;> rfl

theorem Matches.rel_field? (parts : Matches left right) (key : String) :
    Option.Rel Equals (left.field? key) (right.field? key) := by
  cases parts with
  | object equal => exact equal key
  | null | bool | number | string | list | function => exact .none

theorem Matches.exists_list {items : List Value} (parts : Matches (.list items) right) :
    ∃ others, right = .list others ∧ items.length = others.length := by
  cases parts with
  | list equal => exact ⟨_, rfl, (forall₂_iff_rel_getElem?.mpr equal).length_eq⟩

/-- Equality is a partial equivalence. It is blind to the order of fields, holds of a value and
itself exactly where every number is a number, and is respected by what a program sees of a
value. -/
theorem beq_partial_equivalence {first second third : Value} (distinct : first.HasDistinctKeys)
    (secondDistinct : second.HasDistinctKeys) (thirdDistinct : third.HasDistinctKeys) :
    (first == second ↔ second == first) ∧
    (first == second → second == third → first == third) ∧
    (first == first ↔ ¬first.ContainsNaN) ∧
    (¬first.ContainsNaN → ∀ other, Reordered first other → first == other) ∧
    (first == second → first.typeName = second.typeName ∧ first.isTruthy = second.isTruthy ∧
      (∀ key, Option.Rel Equals (first.field? key) (second.field? key)) ∧
      ∀ items, first = .list items →
        ∃ others, second = .list others ∧ items.length = others.length) := by
  refine ⟨⟨Equals.symm distinct secondDistinct, Equals.symm secondDistinct distinct⟩,
    Equals.trans distinct secondDistinct thirdDistinct, ?_, ?_, ?_⟩
  · exact ⟨fun equal contains => contains.not_equals first equal,
      fun free => Reordered.equals distinct free (.same first)⟩
  · exact fun free other reordered => reordered.equals distinct free
  · intro equal
    have parts := Equals.matches distinct secondDistinct equal
    refine ⟨parts.typeName_eq, parts.isTruthy_eq, parts.rel_field?, ?_⟩
    rintro items rfl
    exact parts.exists_list

/-- The two zeros are equal, also in objects whose fields are in another order. -/
theorem beq_partial_equivalence_zeros :
    let first := Value.object [("a", .list [.number (.ofBits 0)]), ("b", .null)]
    let second := Value.object [("b", .null), ("a", .list [.number (.ofBits 0x8000000000000000)])]
    first.HasDistinctKeys ∧ second.HasDistinctKeys ∧ second == first ∧ first == second ∧
      ¬first.ContainsNaN := by
  intro first second
  have item : ∀ value, (Value.list [.number value]).HasDistinctKeys := fun value =>
    .list (List.forall_mem_singleton.mpr (.number value))
  have distinct : first.HasDistinctKeys :=
    .object (by decide) (List.forall_mem_cons.mpr ⟨item _, List.forall_mem_singleton.mpr .null⟩)
  have secondDistinct : second.HasDistinctKeys :=
    .object (by decide) (List.forall_mem_cons.mpr ⟨.null, List.forall_mem_singleton.mpr (item _)⟩)
  have equal : second == first := by
    decide +kernel
  have facts := beq_partial_equivalence distinct secondDistinct distinct
  have mirrored : first == second := facts.1.mpr equal
  exact ⟨distinct, secondDistinct, equal, mirrored, facts.2.2.1.mp (facts.2.1 mirrored equal)⟩

end Value

end RuleLisp
