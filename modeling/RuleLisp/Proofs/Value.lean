import RuleLisp.Proofs.Table
import RuleLisp.Value.JsonText

/-! # Values up to their functions

Two values are *alike* if they differ at most in the functions inside them, and these are related
in pairs. The operations of the language cannot tell alike values apart, as long as related
functions have the same name and two of them are the same function on both sides or on neither.
-/

namespace RuleLisp

/-! ## Induction -/

@[elab_as_elim, induction_eliminator]
theorem Value.induction {motive : Value → Prop} (null : motive .null)
    (bool : ∀ value, motive (.bool value)) (number : ∀ value, motive (.number value))
    (string : ∀ text, motive (.string text))
    (list : ∀ items, (∀ item ∈ items, motive item) → motive (.list items))
    (object : ∀ fields, (∀ field ∈ fields, motive field.2) → motive (.object fields))
    (function : ∀ callee, motive (.function callee)) (value : Value) : motive value := by
  refine @Value.rec motive (fun items => ∀ item ∈ items, motive item)
    (fun fields => ∀ field ∈ fields, motive field.2) (fun field => motive field.2)
    null bool number string list object function ?_ ?_ ?_ ?_ ?_ value
  · simp
  · intro head tail first rest
    exact List.forall_mem_cons.mpr ⟨first, rest⟩
  · simp
  · intro head tail first rest
    exact List.forall_mem_cons.mpr ⟨first, rest⟩
  · intro key value holds
    exact holds

/-! ## Functions -/

/-- A function of the host, or one whose definition is of the given kind. -/
def Function.FromHostOr (kind : Closure → Prop) : Function → Prop
  | .closure definition => kind definition
  | .host _ _ => True

theorem Function.FromHostOr.mono {kind more : Closure → Prop} {callee : Function}
    (known : callee.FromHostOr kind) (weaker : ∀ definition, kind definition → more definition) :
    callee.FromHostOr more := by
  cases callee with
  | closure definition => exact weaker definition known
  | host number name => trivial

/-! ## Alike values -/

/-- A way to pair functions that programs cannot see through. -/
structure FunctionPairing where
  Paired : Function → Function → Prop
  name_eq : ∀ {left right}, Paired left right → left.name = right.name
  same_eq : ∀ {left right other another}, Paired left right → Paired other another →
    left.same other = right.same another

def FunctionPairing.identity : FunctionPairing where
  Paired left right := left = right
  name_eq := by
    rintro left _ rfl
    rfl
  same_eq := by
    rintro left _ other _ rfl rfl
    rfl

namespace Value

/-- Values that are the same up to paired functions. -/
inductive Like (functions : FunctionPairing) : Value → Value → Prop
  | null : Like functions .null .null
  | bool (value : Bool) : Like functions (.bool value) (.bool value)
  | number (value : Float) : Like functions (.number value) (.number value)
  | string (text : String) : Like functions (.string text) (.string text)
  | list {items others : List Value} (alike : List.Forall₂ (Like functions) items others) :
      Like functions (.list items) (.list others)
  | object {fields others : List (String × Value)}
      (alike : List.Forall₂ (Table.EntryRel (Like functions)) fields others) :
      Like functions (.object fields) (.object others)
  | function {callee other : Function} (paired : functions.Paired callee other) :
      Like functions (.function callee) (.function other)

variable {functions : FunctionPairing} {left right : Value}

theorem Like.typeName_eq (alike : Like functions left right) : left.typeName = right.typeName := by
  cases alike <;> rfl

theorem Like.isTruthy_eq (alike : Like functions left right) :
    left.isTruthy = right.isTruthy := by
  cases alike <;> rfl

theorem Like.toNumber_eq (alike : Like functions left right) :
    left.toNumber = right.toNumber := by
  cases alike <;> rfl

theorem Like.field? (alike : Like functions left right) (key : String) :
    Option.Rel (Like functions) (left.field? key) (right.field? key) := by
  cases alike with
  | object fields => exact Table.Rel.get? fields key
  | null | bool | number | string | list | function => exact .none

/-! ## Texts -/

theorem renderItems_eq_map (items : List Value) :
    renderItems items = items.map (renderAt true) := by
  induction items with
  | nil => simp [renderItems]
  | cons item rest induction => simp [renderItems, induction]

theorem renderFields_eq_map (fields : List (String × Value)) :
    renderFields fields = fields.map fun field => field.1 ++ ": " ++ field.2.renderAt true := by
  induction fields with
  | nil => simp [renderFields]
  | cons field rest induction => simp [renderFields, induction]

theorem jsonItems_eq_map (layout : Option Nat) (items : List Value) :
    jsonItems layout items = items.map fun item => lineBreak layout ++ item.jsonAt layout := by
  induction items with
  | nil => simp [jsonItems]
  | cons item rest induction => simp [jsonItems, induction]

theorem jsonFields_eq_map (layout : Option Nat) (fields : List (String × Value)) :
    jsonFields layout fields = fields.map fun field =>
      lineBreak layout ++ quote field.1 ++ colon layout ++ field.2.jsonAt layout := by
  induction fields with
  | nil => simp [jsonFields]
  | cons field rest induction => simp [jsonFields, induction]

theorem functionText_eq {callee other : Function} (paired : functions.Paired callee other) :
    functionText callee = functionText other := by
  rw [functionText, functionText, functions.name_eq paired]

/-- Related rows have the same texts if related items have. -/
theorem map_eq_of_forall₂ {α γ : Type} {related : α → α → Prop} {items others : List α}
    {text : α → γ} (alike : List.Forall₂ related items others)
    (same : ∀ item ∈ items, ∀ other, related item other → text item = text other) :
    items.map text = others.map text := by
  induction alike with
  | nil => rfl
  | cons first _ induction =>
      rw [List.forall_mem_cons] at same
      rw [List.map_cons, List.map_cons, same.1 _ first, induction same.2]

theorem Like.renderAt_eq (alike : Like functions left right) (nested : Bool) :
    left.renderAt nested = right.renderAt nested := by
  induction left generalizing right nested with
  | null | bool | number | string =>
      cases alike
      rfl
  | list items induction =>
      rcases alike with _ | _ | _ | _ | ⟨alike⟩
      rw [renderAt, renderAt, renderItems_eq_map, renderItems_eq_map,
        map_eq_of_forall₂ alike fun item member other twins => induction item member twins true]
  | object fields induction =>
      rcases alike with _ | _ | _ | _ | _ | ⟨alike⟩
      rw [renderAt, renderAt, renderFields_eq_map, renderFields_eq_map]
      rw [map_eq_of_forall₂ alike]
      intro field member other twins
      rcases twins with ⟨key, values⟩
      rw [induction _ member values true]
  | function callee =>
      rcases alike with _ | _ | _ | _ | _ | _ | ⟨paired⟩
      exact functionText_eq paired

theorem Like.jsonAt_eq (alike : Like functions left right) (layout : Option Nat) :
    left.jsonAt layout = right.jsonAt layout := by
  induction left generalizing right layout with
  | null | bool | number | string =>
      cases alike
      rfl
  | list items induction =>
      rcases alike with _ | _ | _ | _ | ⟨alike⟩
      rw [jsonAt, jsonAt, jsonItems_eq_map, jsonItems_eq_map]
      rw [map_eq_of_forall₂ alike]
      intro item member other twins
      rw [induction item member twins]
  | object fields induction =>
      rcases alike with _ | _ | _ | _ | _ | ⟨alike⟩
      rw [jsonAt, jsonAt, jsonFields_eq_map, jsonFields_eq_map]
      rw [map_eq_of_forall₂ alike]
      intro field member other twins
      rcases twins with ⟨key, values⟩
      rw [induction _ member values]
  | function callee =>
      rcases alike with _ | _ | _ | _ | _ | _ | ⟨paired⟩
      rw [jsonAt, jsonAt, functionText_eq paired]

/-- Values of the same type that are written in the same way. -/
structure Resembles (left right : Value) : Prop where
  typeName_eq : left.typeName = right.typeName
  render_eq : left.render = right.render
  compactJson_eq : left.compactJson = right.compactJson
  prettyJson_eq : left.prettyJson = right.prettyJson

theorem Like.resembles (alike : Like functions left right) : left.Resembles right :=
  ⟨alike.typeName_eq, alike.renderAt_eq _, alike.jsonAt_eq _, alike.jsonAt_eq _⟩

/-! ## Equality -/

theorem beqItems_eq {items twins others anothers : List Value}
    (alike : List.Forall₂ (Like functions) items twins)
    (othersAlike : List.Forall₂ (Like functions) others anothers)
    (same : ∀ item ∈ items, ∀ {twin other another}, Like functions item twin →
      Like functions other another → item.beq other = twin.beq another) :
    beqItems items others = beqItems twins anothers := by
  induction alike generalizing others anothers with
  | nil => cases othersAlike <;> rfl
  | cons first _ induction =>
      rw [List.forall_mem_cons] at same
      cases othersAlike with
      | nil => rfl
      | cons otherFirst othersAlike =>
          rw [beqItems, beqItems, same.1 first otherFirst, induction othersAlike same.2]

theorem beqFields_eq {fields twins others anothers : List (String × Value)}
    (alike : Table.Rel (Like functions) fields twins)
    (othersAlike : Table.Rel (Like functions) others anothers)
    (same : ∀ field ∈ fields, ∀ {twin other another}, Like functions field.2 twin →
      Like functions other another → field.2.beq other = twin.beq another) :
    beqFields fields others = beqFields twins anothers := by
  induction alike with
  | nil => rfl
  | cons first _ induction =>
      rw [List.forall_mem_cons] at same
      rcases first with ⟨key, values⟩
      rw [beqFields, beqFields, induction same.2]
      congr 1
      have found := othersAlike.get? key
      revert found
      cases Table.get? key others <;> cases Table.get? key anothers <;> intro found
      · rfl
      · cases found
      · cases found
      · rcases found with ⟨found⟩
        exact same.1 values found

theorem Like.beq_eq {other another : Value} (alike : Like functions left right)
    (othersAlike : Like functions other another) : (left == other) = (right == another) := by
  change left.beq other = right.beq another
  induction left generalizing right other another with
  | null | bool | number | string =>
      cases alike
      cases othersAlike <;> rfl
  | list items induction =>
      rcases alike with _ | _ | _ | _ | ⟨alike⟩
      cases othersAlike with
      | list othersAlike => exact beqItems_eq alike othersAlike induction
      | null | bool | number | string | object | function => rfl
  | object fields induction =>
      rcases alike with _ | _ | _ | _ | _ | ⟨alike⟩
      cases othersAlike with
      | object othersAlike =>
          simp only [Value.beq]
          rw [alike.length_eq, othersAlike.length_eq, beqFields_eq alike othersAlike induction]
      | null | bool | number | string | list | function => rfl
  | function callee =>
      rcases alike with _ | _ | _ | _ | _ | _ | ⟨paired⟩
      cases othersAlike with
      | function otherPaired => exact functions.same_eq paired otherPaired
      | null | bool | number | string | list | object => rfl

/-! ## The same values -/

theorem Like.refl (value : Value) : Like .identity value value := by
  induction value with
  | null => exact .null
  | bool value => exact .bool value
  | number value => exact .number value
  | string text => exact .string text
  | list items induction => exact .list (List.forall₂_same.mpr induction)
  | object fields induction =>
      apply Like.object
      apply List.forall₂_same.mpr
      intro field member
      exact .mk field.1 (induction field member)
  | function callee => exact .function rfl

theorem Like.refl_option (found : Option Value) : Option.Rel (Like .identity) found found := by
  cases found with
  | none => exact .none
  | some value => exact .some (.refl value)

theorem Like.eq_of_paired
    (equal : ∀ {callee other}, functions.Paired callee other → callee = other)
    (alike : Like functions left right) : left = right := by
  induction left generalizing right with
  | null | bool | number | string =>
      cases alike
      rfl
  | list items induction =>
      rcases alike with _ | _ | _ | _ | @⟨_, others, alike⟩
      have same : items.map id = others.map id :=
        map_eq_of_forall₂ alike fun item member other twins => induction item member twins
      rw [List.map_id, List.map_id] at same
      rw [same]
  | object fields induction =>
      rcases alike with _ | _ | _ | _ | _ | @⟨_, others, alike⟩
      have same : fields.map id = others.map id := by
        apply map_eq_of_forall₂ alike
        rintro _ member _ ⟨key, values⟩
        exact congrArg (Prod.mk key) (induction _ member values)
      rw [List.map_id, List.map_id] at same
      rw [same]
  | function callee =>
      rcases alike with _ | _ | _ | _ | _ | _ | ⟨paired⟩
      rw [equal paired]

theorem Like.eq_of_identity (alike : Like .identity left right) : left = right :=
  alike.eq_of_paired id

theorem eq_of_forall₂_identity {values others : List Value}
    (alike : List.Forall₂ (Like .identity) values others) : values = others := by
  have same : values.map id = others.map id :=
    map_eq_of_forall₂ alike fun _ _ _ twins => twins.eq_of_identity
  rwa [List.map_id, List.map_id] at same

/-! ## The functions in a value -/

/-- Every function in a value, at any depth, is one of the given kind. -/
inductive AllFunctions (known : Function → Prop) : Value → Prop
  | null : AllFunctions known .null
  | bool (value : Bool) : AllFunctions known (.bool value)
  | number (value : Float) : AllFunctions known (.number value)
  | string (text : String) : AllFunctions known (.string text)
  | list {items : List Value} (all : ∀ item ∈ items, AllFunctions known item) :
      AllFunctions known (.list items)
  | object {fields : List (String × Value)} (all : ∀ field ∈ fields, AllFunctions known field.2) :
      AllFunctions known (.object fields)
  | function {callee : Function} (holds : known callee) : AllFunctions known (.function callee)

theorem AllFunctions.item {known : Function → Prop} {items : List Value}
    (all : AllFunctions known (.list items)) : ∀ item ∈ items, item.AllFunctions known := by
  cases all with
  | list all => exact all

theorem AllFunctions.field {known : Function → Prop} {fields : List (String × Value)}
    (all : AllFunctions known (.object fields)) : ∀ field ∈ fields, field.2.AllFunctions known := by
  cases all with
  | object all => exact all

theorem AllFunctions.mono {known more : Function → Prop} {value : Value}
    (all : value.AllFunctions known) (weaker : ∀ callee, known callee → more callee) :
    value.AllFunctions more := by
  induction all with
  | null => exact .null
  | bool value => exact .bool value
  | number value => exact .number value
  | string text => exact .string text
  | list _ induction => exact .list induction
  | object _ induction => exact .object induction
  | function holds => exact .function (weaker _ holds)

theorem AllFunctions.like {known : Function → Prop} {value : Value}
    (all : value.AllFunctions known)
    (paired : ∀ callee, known callee → functions.Paired callee callee) :
    Like functions value value := by
  induction all with
  | null => exact .null
  | bool value => exact .bool value
  | number value => exact .number value
  | string text => exact .string text
  | list _ induction => exact .list (List.forall₂_same.mpr induction)
  | object _ induction =>
      apply Like.object
      apply List.forall₂_same.mpr
      intro field member
      exact .mk field.1 (induction field member)
  | function holds => exact .function (paired _ holds)

theorem exists_of_forall₂ {α : Type} {related : α → α → Prop} {items others : List α}
    (alike : List.Forall₂ related items others) {item : α} (member : item ∈ items) :
    ∃ other, related item other := by
  induction alike with
  | nil => cases member
  | cons first _ induction =>
      rcases List.mem_cons.mp member with rfl | later
      · exact ⟨_, first⟩
      · exact induction later

theorem Like.allFunctions {known : Function → Prop}
    (holds : ∀ {callee other}, functions.Paired callee other → known callee)
    (alike : Like functions left right) : left.AllFunctions known := by
  induction left generalizing right with
  | null => exact .null
  | bool value => exact .bool value
  | number value => exact .number value
  | string text => exact .string text
  | list items induction =>
      rcases alike with _ | _ | _ | _ | ⟨alike⟩
      apply AllFunctions.list
      intro item member
      obtain ⟨twin, twins⟩ := exists_of_forall₂ alike member
      exact induction item member twins
  | object fields induction =>
      rcases alike with _ | _ | _ | _ | _ | ⟨alike⟩
      apply AllFunctions.object
      intro field member
      obtain ⟨_, ⟨key, values⟩⟩ := exists_of_forall₂ alike member
      exact induction _ member values
  | function callee =>
      rcases alike with _ | _ | _ | _ | _ | _ | ⟨paired⟩
      exact .function (holds paired)

abbrev IsFunctionFree (value : Value) : Prop :=
  value.AllFunctions fun _ => False

/-! ## Distinct keys -/

inductive HasDistinctKeys : Value → Prop
  | null : HasDistinctKeys .null
  | bool (value : Bool) : HasDistinctKeys (.bool value)
  | number (value : Float) : HasDistinctKeys (.number value)
  | string (text : String) : HasDistinctKeys (.string text)
  | list {items : List Value} (all : ∀ item ∈ items, HasDistinctKeys item) :
      HasDistinctKeys (.list items)
  | object {fields : List (String × Value)} (distinct : (Table.keys fields).Nodup)
      (all : ∀ field ∈ fields, HasDistinctKeys field.2) : HasDistinctKeys (.object fields)
  | function (callee : Function) : HasDistinctKeys (.function callee)

end Value

end RuleLisp
