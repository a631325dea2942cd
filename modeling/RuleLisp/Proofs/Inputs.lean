import RuleLisp.Inputs
import RuleLisp.Proofs.Table

/-! # Binding inputs

A text that is not one JSON object changes nothing. From an object all inputs are written: its keys
are told apart before the mark of inputs is added, so of two keys that give one name the later one
has its value there, while both are counted.
-/

namespace RuleLisp

namespace Json

/-- The members of an object with their values. -/
theorem rel_of_fieldsWith? {number? : Numeral → Option Float} {members : List (String × Json)}
    {fields : List (String × Value)} (read : fieldsWith? number? members = some fields) :
    Table.Rel (fun item value => item.valueWith? number? = some value) members fields := by
  induction members generalizing fields with
  | nil =>
      cases read
      exact .nil
  | cons member rest induction =>
      simp only [fieldsWith?, Option.bind_eq_bind, Option.bind_eq_some_iff] at read
      rcases read with ⟨value, first, others, later, same⟩
      cases same
      exact .cons ⟨member.1, first⟩ (induction later)

end Json

namespace Inputs

/-! ## What a text holds -/

def IsJson (text : String) (json : Json) : Prop :=
  Json.parse? text = some json ∧ json.value?.isSome

/-- The keys of an object, each in the place where it comes first. -/
def distinctKeys (members : List (String × Json)) : List String :=
  (Table.keys members).eraseDups

/-- The names of the inputs in an object, with one for each key. -/
def names (members : List (String × Json)) : List String :=
  (distinctKeys members).map Store.inputName

/-- The last of some keys in order that an input has its name from. -/
def IsLastKey (keys : List String) (key name : String) : Prop :=
  Store.inputName key = name ∧ ∃ earlier later, keys = earlier ++ key :: later ∧
    ∀ other ∈ later, Store.inputName other ≠ name

theorem read_of_not_object {text : String} {json : Json} (parsed : Json.parse? text = some json)
    {value : Value} (found : json.value? = some value)
    (notObject : ∀ fields, value ≠ .object fields) :
    read text = .error (.notAnObject json.kindName) := by
  simp only [read, parsed, found]

/-- The three outcomes of reading a text. -/
theorem read_cases (text : String) :
    (read text = .error .invalidJson ∧ ∀ json, ¬IsJson text json) ∨
    (∃ json, IsJson text json ∧ (∀ members, json ≠ .object members) ∧
      read text = .error (.notAnObject json.kindName)) ∨
    ∃ members fields, IsJson text (.object members) ∧
      Json.fieldsWith? Json.Numeral.number? members = some fields ∧
      read text = .ok (Table.ofList fields) := by
  cases parsed : Json.parse? text with
  | none =>
      refine .inl ⟨by simp only [read, parsed], ?_⟩
      rintro json ⟨other, _⟩
      cases parsed.symm.trans other
  | some json =>
      cases found : json.value? with
      | none =>
          refine .inl ⟨by simp only [read, parsed, found], ?_⟩
          rintro json ⟨other, isSome⟩
          cases parsed.symm.trans other
          rw [found] at isSome
          cases isSome
      | some value =>
          have isJson : IsJson text json := ⟨parsed, by simp [found]⟩
          cases json with
          | object members =>
              rcases Option.map_eq_some_iff.mp found with ⟨fields, read, rfl⟩
              refine .inr (.inr ⟨members, fields, isJson, read, ?_⟩)
              simp only [Inputs.read, parsed, found]
          | null | bool | string =>
              cases found
              refine .inr (.inl ⟨_, isJson, ?_, read_of_not_object parsed rfl ?_⟩) <;>
                (intro inside same; cases same)
          | number | array =>
              rcases Option.map_eq_some_iff.mp found with ⟨_, _, rfl⟩
              refine .inr (.inl ⟨_, isJson, ?_, read_of_not_object parsed found ?_⟩) <;>
                (intro inside same; cases same)

/-! ## What is written -/

def marked (inputs : Table Value) : List (String × Value) :=
  inputs.map fun input => (Store.inputName input.1, input.2)

theorem keys_marked (inputs : Table Value) :
    Table.keys (marked inputs) = (Table.keys inputs).map Store.inputName := by
  simp [Table.keys, marked]

section

variable {env : Environment} {store : Store}

theorem bindAll_scopes (inputs : Table Value) :
    bindAll store env inputs = { store with scopes := (bindAll store env inputs).scopes } := by
  induction inputs generalizing store with
  | nil => rfl
  | cons input rest induction =>
      exact induction

theorem size_bindAll (inputs : Table Value) :
    (bindAll store env inputs).scopes.size = store.scopes.size := by
  induction inputs generalizing store with
  | nil => rfl
  | cons input rest induction => exact induction.trans (store.size_define ..)

/-- The writes go into one scope, one after the other. -/
theorem scope_bindAll (known : env.scope < store.scopes.size) (inputs : Table Value)
    (number : Nat) :
    (bindAll store env inputs).scope number =
      if number = env.scope then Table.insertAll (store.scope number) (marked inputs)
      else store.scope number := by
  induction inputs generalizing store with
  | nil => exact (ite_self _).symm
  | cons input rest induction =>
      have still : env.scope < (store.bindInput env input.1 input.2).scopes.size := by
        rwa [Store.bindInput, Store.size_define]
      refine (induction still).trans ?_
      rw [Store.bindInput, Store.scope_define]
      by_cases here : number = env.scope
      · rw [if_pos here, if_pos here, if_pos ⟨here, here ▸ known⟩]
        rfl
      · rw [if_neg here, if_neg here, if_neg fun both => here both.1]

theorem keys_ofList_fields {members : List (String × Json)} {fields : List (String × Value)}
    (read : Json.fieldsWith? Json.Numeral.number? members = some fields) :
    Table.keys (Table.ofList fields) = distinctKeys members := by
  rw [Table.keys_ofList, ← (Json.rel_of_fieldsWith? read).keys_eq, distinctKeys]

/-- Every name that some key gives belongs to the last such key, and has the value that the object
has last for that key. -/
theorem exists_lastWrite? {members : List (String × Json)} {fields : List (String × Value)}
    (read : Json.fieldsWith? Json.Numeral.number? members = some fields) {name : String}
    (named : name ∈ names members) :
    ∃ key item value, IsLastKey (distinctKeys members) key name ∧
      Table.lastWrite? key members = some item ∧ item.value? = some value ∧
      Table.lastWrite? name (marked (Table.ofList fields)) = some value := by
  have written : Table.lastWrite? name (marked (Table.ofList fields)) ≠ none := by
    rw [Ne, Table.lastWrite?_eq_none_iff, keys_marked, keys_ofList_fields read]
    exact not_not_intro named
  rcases Option.ne_none_iff_exists'.mp written with ⟨_, last⟩
  -- The last write of the name splits the inputs at the key that it comes from.
  rcases Table.lastWrite?_eq_some_iff.mp last with ⟨_, _, split, absent⟩
  rcases List.map_eq_append_iff.mp split with ⟨earlier, _, whole, rfl, tail⟩
  rcases List.map_eq_cons_iff.mp tail with ⟨⟨key, value⟩, later, rfl, same, rfl⟩
  cases same
  have found : Table.get? key (Table.ofList fields) = some value := by
    apply Table.get?_of_mem (Table.nodup_keys_ofList fields)
    rw [whole]
    exact List.mem_append_right _ List.mem_cons_self
  have alike := (Json.rel_of_fieldsWith? read).ofList.get? key
  rw [Table.get?_ofList, found] at alike
  generalize given : Table.lastWrite? key members = held at alike
  rcases alike with ⟨converted⟩
  refine ⟨key, _, value, ⟨rfl, Table.keys earlier, Table.keys later, ?_, ?_⟩, given, converted,
    last⟩
  · rw [← keys_ofList_fields read, whole]
    simp [Table.keys]
  · intro other among same
    apply absent
    rw [← same]
    exact keys_marked later ▸ List.mem_map_of_mem among

end

structure Binds (env : Environment) (members : List (String × Json)) (before after : Store) :
    Prop where
  values : ∀ name ∈ names members, ∃ key item value, IsLastKey (distinctKeys members) key name ∧
    Table.lastWrite? key members = some item ∧ item.value? = some value ∧
    after.lookup? env name = some value
  kept : ∀ name ∉ names members,
    Table.get? name (after.scope env.scope) = Table.get? name (before.scope env.scope)
  localNames_eq : after.localNames env = before.localNames env ++
    (names members).eraseDups.filter (· ∉ before.localNames env)
  others : ∀ number ≠ env.scope, after.scope number = before.scope number
  size_eq : after.scopes.size = before.scopes.size
  rest_eq : after = { before with scopes := after.scopes }

theorem binds_bindAll {env : Environment} {store : Store} {members : List (String × Json)}
    {fields : List (String × Value)} (known : env.scope < store.scopes.size)
    (read : Json.fieldsWith? Json.Numeral.number? members = some fields) :
    Binds env members store (bindAll store env (Table.ofList fields)) := by
  have named : Table.keys (marked (Table.ofList fields)) = names members := by
    rw [keys_marked, keys_ofList_fields read, names]
  have written : (bindAll store env (Table.ofList fields)).scope env.scope =
      Table.insertAll (store.scope env.scope) (marked (Table.ofList fields)) := by
    rw [scope_bindAll known, if_pos rfl]
  refine ⟨?values, ?kept, ?localNames, ?others, size_bindAll _, bindAll_scopes _⟩
  case values =>
    intro name member
    rcases exists_lastWrite? read member with ⟨key, item, value, last, found, converted, same⟩
    refine ⟨key, item, value, last, found, converted, ?_⟩
    rw [Store.lookup?, Environment.scopes, List.findSome?_cons, written, Table.get?_insertAll,
      same, Option.some_or]
  case kept =>
    intro name absent
    rw [written, Table.get?_insertAll, Table.lastWrite?_eq_none_iff.mpr (named ▸ absent),
      Option.none_or]
  case localNames => rw [Store.localNames, written, Table.keys_insertAll, named, Store.localNames]
  case others =>
    intro number different
    rw [scope_bindAll known, if_neg different]

theorem run_bindText_of_error (env : Environment) {text : String} {error : InputError}
    (failed : read text = .error error) (store : Store) :
    (bindText env text).run store = (.error error, store) := by
  rw [bindText, failed]
  rfl

theorem run_bindText_of_ok (env : Environment) {text : String} {inputs : Table Value}
    (succeeded : read text = .ok inputs) (store : Store) :
    (bindText env text).run store = (.ok inputs.length, bindAll store env inputs) := by
  rw [bindText, succeeded]
  rfl

/-- Inputs are bound all or none, and which of the two depends on the text alone. -/
theorem bindText_all_or_none (env : Environment) (text : String) (store : Store)
    (known : env.scope < store.scopes.size) :
    let result := ((bindText env text).run store).1
    let after := ((bindText env text).run store).2
    (result = .error .invalidJson ∧ after = store ∧ ∀ json, ¬IsJson text json) ∨
    (∃ json, result = .error (.notAnObject json.kindName) ∧ after = store ∧ IsJson text json ∧
      ∀ members, json ≠ .object members) ∨
    ∃ members, result = .ok (distinctKeys members).length ∧ IsJson text (.object members) ∧
      Binds env members store after := by
  intro result after
  rcases read_cases text with ⟨failed, notJson⟩ | ⟨json, isJson, other, failed⟩ |
    ⟨members, fields, isJson, read, succeeded⟩
  · have ran := run_bindText_of_error env failed store
    exact .inl ⟨congrArg Prod.fst ran, congrArg Prod.snd ran, notJson⟩
  · have ran := run_bindText_of_error env failed store
    exact .inr (.inl ⟨json, congrArg Prod.fst ran, congrArg Prod.snd ran, isJson, other⟩)
  · have ran := run_bindText_of_ok env succeeded store
    have count : (Table.ofList fields).length = (distinctKeys members).length := by
      rw [← keys_ofList_fields read, Table.keys, List.length_map]
    refine .inr (.inr ⟨members, ?_, isJson, ?_⟩)
    · rw [← count]
      exact congrArg Prod.fst ran
    · rw [show after = bindAll store env (Table.ofList fields) from congrArg Prod.snd ran]
      exact binds_bindAll known read

/-- A key that is repeated, a key that has the mark already, and a name that is bound before. -/
theorem bindText_all_or_none_repeated :
    let text := "\x7b\"a\": true, \"$a\": false, \"b\": [], \"a\": null\x7d"
    let members : List (String × Json) :=
      [("a", .bool true), ("$a", .bool false), ("b", .array []), ("a", .null)]
    let store : Store := ⟨#[[("$b", .null)]], 0, #[], #[]⟩
    let result := ((bindText .root text).run store).1
    let after := ((bindText .root text).run store).2
    Environment.root.scope < store.scopes.size ∧ IsJson text (.object members) ∧
      result = .ok 3 ∧ Binds .root members store after ∧
      after.localNames .root = ["$b", "$a"] := by
  intro text members store result after
  have known : Environment.root.scope < store.scopes.size := by decide
  -- The text opens two levels of brackets, and with the other levels closed it can be evaluated.
  obtain ⟨inside, levels⟩ : ∃ inside, Json.readLevels? Json.maxLevels =
      Json.readTree? (some (Json.readTree? (some inside))) := ⟨_, rfl⟩
  have parsed : Json.parse? text = some (.object members) := by
    rw [Json.parse?, levels]
    unfold text
    rfl
  have isJson : IsJson text (.object members) := ⟨parsed, rfl⟩
  have same : ∀ json, IsJson text json → json = .object members := by
    intro json other
    exact Option.some.inj (other.1.symm.trans isJson.1)
  rcases bindText_all_or_none .root text store known with ⟨_, _, notJson⟩ |
    ⟨json, _, _, other, notObject⟩ | ⟨others, counted, other, binds⟩
  · exact absurd isJson (notJson _)
  · exact absurd (same json other) (notObject members)
  · cases same _ other
    refine ⟨known, isJson, counted, binds, ?_⟩
    rw [binds.localNames_eq]
    decide

end Inputs

end RuleLisp
