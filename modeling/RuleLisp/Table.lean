/-! # Ordered tables

A table holds values under texts and remembers the order in which the texts first came. Writing to
a text again keeps its place. Objects, scopes of variables and object literals are tables.
-/

namespace RuleLisp

/-- Values under texts, in the order in which the texts first came. -/
abbrev Table (α : Type) :=
  List (String × α)

namespace Table

variable {α β : Type}

def keys (table : Table α) : List String :=
  table.map Prod.fst

def get? (key : String) : Table α → Option α
  | [] => none
  | (other, value) :: rest => if other = key then some value else get? key rest

def contains (key : String) (table : Table α) : Bool :=
  (get? key table).isSome

/-- Writes a value under a text, in its place if the text is known and at the end if it is new. -/
def insert (key : String) (value : α) : Table α → Table α
  | [] => [(key, value)]
  | (other, present) :: rest =>
      if other = key then (key, value) :: rest else (other, present) :: insert key value rest

def insertAll (table : Table α) (entries : List (String × α)) : Table α :=
  entries.foldl (fun table entry => insert entry.1 entry.2 table) table

def ofList (entries : List (String × α)) : Table α :=
  insertAll [] entries

example : ofList [("a", 1), ("b", 2), ("a", 3)] = [("a", 3), ("b", 2)] := by decide

/-! ## What a write does -/

theorem get?_insert (key other : String) (value : α) (table : Table α) :
    get? other (insert key value table) = if key = other then some value else get? other table := by
  induction table with
  | nil => simp [insert, get?]
  | cons entry rest induction =>
      obtain ⟨present, old⟩ := entry
      by_cases same : present = key
      · subst same
        by_cases asked : present = other <;> simp [insert, get?, asked]
      · by_cases asked : present = other
        · subst asked
          simp [insert, get?, same, Ne.symm same]
        · simp [insert, get?, same, asked, induction]

theorem get?_eq_none_iff (key : String) (table : Table α) :
    get? key table = none ↔ key ∉ keys table := by
  induction table with
  | nil => simp [get?, keys]
  | cons entry rest induction =>
      obtain ⟨present, old⟩ := entry
      by_cases same : present = key
      · simp [get?, keys, same]
      · simp only [get?, keys, same, if_false, List.map_cons, List.mem_cons, not_or]
        exact ⟨fun absent => ⟨Ne.symm same, induction.mp absent⟩,
          fun absent => induction.mpr absent.2⟩

theorem mem_of_get? {key : String} {value : α} {table : Table α}
    (found : get? key table = some value) : (key, value) ∈ table := by
  induction table with
  | nil => cases found
  | cons entry rest induction =>
      unfold get? at found
      split at found
      · next same =>
          cases found
          exact same ▸ List.mem_cons_self
      · exact List.mem_cons_of_mem _ (induction found)

theorem keys_insert (key : String) (value : α) (table : Table α) :
    keys (insert key value table) =
      if key ∈ keys table then keys table else keys table ++ [key] := by
  induction table with
  | nil => simp [insert, keys]
  | cons entry rest induction =>
      obtain ⟨present, old⟩ := entry
      by_cases same : present = key
      · simp [insert, keys, same]
      · simp only [keys] at induction
        by_cases known : key ∈ rest.map Prod.fst <;>
          simp [insert, keys, same, Ne.symm same, known, induction]

theorem nodup_keys_insert (key : String) (value : α) {table : Table α}
    (distinct : (keys table).Nodup) : (keys (insert key value table)).Nodup := by
  rw [keys_insert]
  split
  · exact distinct
  · next absent =>
      rw [List.nodup_append]
      refine ⟨distinct, by simp, fun left member right last different => ?_⟩
      rw [List.mem_singleton.mp last] at different
      exact absent (different ▸ member)

theorem insert_of_not_mem {key : String} {table : Table α} (absent : key ∉ keys table)
    (value : α) : insert key value table = table ++ [(key, value)] := by
  induction table with
  | nil => rfl
  | cons entry rest induction =>
      simp only [keys, List.map_cons, List.mem_cons, not_or] at absent
      simp [insert, Ne.symm absent.1, induction absent.2]

theorem mem_of_mem_insert {key : String} {value : α} {table : Table α} {entry : String × α}
    (member : entry ∈ insert key value table) : entry = (key, value) ∨ entry ∈ table := by
  induction table with
  | nil => exact .inl (List.mem_singleton.mp member)
  | cons first rest induction =>
      unfold insert at member
      split at member
      · exact (List.mem_cons.mp member).imp_right (List.mem_cons_of_mem _)
      · rcases List.mem_cons.mp member with rfl | member
        · exact .inr List.mem_cons_self
        · exact (induction member).imp_right (List.mem_cons_of_mem _)

theorem forall_mem_insert {property : α → Prop} {table : Table α}
    (all : ∀ entry ∈ table, property entry.2) (key : String) {value : α} (holds : property value) :
    ∀ entry ∈ insert key value table, property entry.2 := by
  intro entry member
  rcases mem_of_mem_insert member with new | old
  · rw [new]
    exact holds
  · exact all entry old

/-! ## What a row of writes does -/

theorem nodup_keys_insertAll {table : Table α} (distinct : (keys table).Nodup)
    (entries : List (String × α)) : (keys (insertAll table entries)).Nodup := by
  induction entries generalizing table with
  | nil => exact distinct
  | cons entry rest induction => exact induction (nodup_keys_insert entry.1 entry.2 distinct)

theorem nodup_keys_ofList (entries : List (String × α)) : (keys (ofList entries)).Nodup :=
  nodup_keys_insertAll (show (keys ([] : Table α)).Nodup from List.nodup_nil) entries

theorem mem_of_mem_insertAll {table : Table α} {entries : List (String × α)} {entry : String × α}
    (member : entry ∈ insertAll table entries) : entry ∈ table ∨ entry ∈ entries := by
  induction entries generalizing table with
  | nil => exact .inl member
  | cons first rest induction =>
      rcases induction member with early | late
      · rcases mem_of_mem_insert early with rfl | early
        · exact .inr List.mem_cons_self
        · exact .inl early
      · exact .inr (List.mem_cons_of_mem _ late)

theorem mem_of_mem_ofList {entries : List (String × α)} {entry : String × α}
    (member : entry ∈ ofList entries) : entry ∈ entries :=
  (mem_of_mem_insertAll member).resolve_left List.not_mem_nil

theorem insertAll_of_nodup {table entries : Table α} (distinct : (keys (table ++ entries)).Nodup) :
    insertAll table entries = table ++ entries := by
  induction entries generalizing table with
  | nil => simp [insertAll]
  | cons entry rest induction =>
      have absent : entry.1 ∉ keys table := by
        intro member
        simp only [keys, List.map_append, List.map_cons, List.nodup_append] at distinct
        exact distinct.2.2 _ member _ List.mem_cons_self rfl
      change insertAll (insert entry.1 entry.2 table) rest = _
      rw [insert_of_not_mem absent, induction (by simpa using distinct)]
      simp

/-- Writing a table again gives the same table. -/
theorem ofList_of_nodup {table : Table α} (distinct : (keys table).Nodup) :
    ofList table = table :=
  insertAll_of_nodup distinct

end Table

end RuleLisp
