import Mathlib.Data.List.Forall2
import Mathlib.Data.List.Induction
import Mathlib.Data.List.Perm.Subperm
import RuleLisp.Table

/-! # Tables

A table that a row of writes has gone into holds, under each text, the last value that was written
for it. Its texts are those that it had before, and then the new ones in the order in which they
were first written. Two tables can be compared entry by entry or by what is found in them.
-/

namespace RuleLisp.Table

/-! ## Writes -/

section

variable {α : Type}

def lastWrite? (key : String) (entries : List (String × α)) : Option α :=
  entries.reverse.lookup key

theorem lastWrite?_concat (key : String) (entries : List (String × α)) (entry : String × α) :
    lastWrite? key (entries ++ [entry]) =
      if entry.1 = key then some entry.2 else lastWrite? key entries := by
  rw [lastWrite?, List.reverse_concat, List.lookup_cons]
  by_cases same : entry.1 = key
  · simp [same]
  · have different : (key == entry.1) = false := beq_eq_false_iff_ne.mpr (Ne.symm same)
    rw [different, if_neg same, lastWrite?]

/-- The last write is the one that no later write has the same text as. -/
theorem lastWrite?_eq_some_iff {key : String} {entries : List (String × α)} {value : α} :
    lastWrite? key entries = some value ↔
      ∃ front back, entries = front ++ (key, value) :: back ∧ key ∉ keys back := by
  rw [lastWrite?, List.lookup_eq_some_iff]
  constructor
  · rintro ⟨later, earlier, reversed, absent⟩
    refine ⟨earlier.reverse, later.reverse, by simpa using congrArg List.reverse reversed, ?_⟩
    intro member
    obtain ⟨entry, among, same⟩ := List.mem_map.mp member
    exact bne_iff_ne.mp (absent entry (List.mem_reverse.mp among)) same.symm
  · rintro ⟨front, back, rfl, absent⟩
    refine ⟨back.reverse, front.reverse, by simp, ?_⟩
    intro entry among
    rw [bne_iff_ne]
    rintro rfl
    exact absent (List.mem_map_of_mem (List.mem_reverse.mp among))

theorem insertAll_concat (table : Table α) (entries : List (String × α)) (entry : String × α) :
    insertAll table (entries ++ [entry]) = insert entry.1 entry.2 (insertAll table entries) := by
  rw [insertAll, List.foldl_append]
  rfl

theorem get?_insertAll (key : String) (table : Table α) (entries : List (String × α)) :
    get? key (insertAll table entries) = (lastWrite? key entries).or (get? key table) := by
  induction entries using List.reverseRecOn with
  | nil => rfl
  | append_singleton entries entry induction =>
      rw [insertAll_concat, get?_insert, lastWrite?_concat, induction]
      split <;> rfl

theorem keys_insertAll (table : Table α) (entries : List (String × α)) :
    keys (insertAll table entries) =
      keys table ++ (keys entries).eraseDups.filter (· ∉ keys table) := by
  induction entries using List.reverseRecOn with
  | nil => simp [insertAll, keys]
  | append_singleton entries entry induction =>
      have all : keys (entries ++ [entry]) = keys entries ++ [entry.1] := by simp [keys]
      rw [insertAll_concat, keys_insert, induction, all, List.eraseDups_append]
      by_cases written : entry.1 ∈ keys entries <;> by_cases present : entry.1 ∈ keys table <;>
        simp [written, present, List.removeAll, List.eraseDups_cons]

theorem get?_ofList (key : String) (entries : List (String × α)) :
    get? key (ofList entries) = lastWrite? key entries := by
  rw [ofList, get?_insertAll]
  exact Option.or_none

theorem keys_ofList (entries : List (String × α)) :
    keys (ofList entries) = (keys entries).eraseDups := by
  rw [ofList, keys_insertAll]
  simp [keys]

theorem lastWrite?_eq_none_iff {key : String} {entries : List (String × α)} :
    lastWrite? key entries = none ↔ key ∉ keys entries := by
  rw [← get?_ofList, get?_eq_none_iff, keys_ofList, List.mem_eraseDups]

end

/-! ## Tables side by side -/

section

inductive EntryRel {α β : Type} (related : α → β → Prop) : String × α → String × β → Prop
  | mk (key : String) {value : α} {other : β} (values : related value other) :
      EntryRel related (key, value) (key, other)

/-- Tables with the same texts in the same order and related values under them. -/
abbrev Rel {α β : Type} (related : α → β → Prop) : Table α → Table β → Prop :=
  List.Forall₂ (EntryRel related)

variable {α β : Type} {related : α → β → Prop} {table : Table α} {other : Table β}

theorem Rel.keys_eq (alike : Rel related table other) : keys table = keys other := by
  induction alike with
  | nil => rfl
  | cons first _ induction =>
      rcases first with ⟨key, _⟩
      exact congrArg (key :: ·) induction

theorem Rel.get? (alike : Rel related table other) (key : String) :
    Option.Rel related (Table.get? key table) (Table.get? key other) := by
  induction alike with
  | nil => exact .none
  | cons first _ induction =>
      rcases first with ⟨name, values⟩
      by_cases found : name = key
      · simpa [Table.get?, found] using values
      · simpa [Table.get?, found] using induction

theorem Rel.insert (alike : Rel related table other) (key : String) {value : α} {twin : β}
    (values : related value twin) :
    Rel related (Table.insert key value table) (Table.insert key twin other) := by
  induction alike with
  | nil => exact .cons ⟨key, values⟩ .nil
  | cons first rest induction =>
      rcases first with ⟨name, twins⟩
      by_cases found : name = key
      · subst found
        simpa [Table.insert] using ⟨⟨name, values⟩, rest⟩
      · simpa [Table.insert, found] using ⟨⟨name, twins⟩, induction⟩

theorem Rel.insertAll {entries : List (String × α)} {others : List (String × β)}
    (alike : Rel related table other) (entriesAlike : Rel related entries others) :
    Rel related (Table.insertAll table entries) (Table.insertAll other others) := by
  induction entriesAlike generalizing table other with
  | nil => exact alike
  | cons first _ induction =>
      rcases first with ⟨key, values⟩
      exact induction (alike.insert key values)

theorem Rel.ofList {entries : List (String × α)} {others : List (String × β)}
    (entriesAlike : Rel related entries others) :
    Rel related (Table.ofList entries) (Table.ofList others) :=
  Rel.insertAll .nil entriesAlike

end

/-! ## Tables that are looked up alike -/

variable {α : Type} {table other : Table α}

theorem get?_of_mem (distinct : (keys table).Nodup) {key : String} {value : α}
    (member : (key, value) ∈ table) : get? key table = some value := by
  induction table with
  | nil => cases member
  | cons entry rest induction =>
      rw [keys, List.map_cons, List.nodup_cons] at distinct
      rcases List.mem_cons.mp member with rfl | later
      · simp [get?]
      · have different : entry.1 ≠ key := by
          rintro rfl
          exact distinct.1 (List.mem_map.mpr ⟨_, later, rfl⟩)
        simp [get?, different, induction distinct.2 later]

theorem mem_keys_iff {key : String} : key ∈ keys table ↔ ∃ value, get? key table = some value := by
  rw [← Option.ne_none_iff_exists', Ne, get?_eq_none_iff, not_not]

theorem exists_of_rel_some {related : α → α → Prop} {value : α} {found : Option α}
    (pair : Option.Rel related (some value) found) :
    ∃ twin, found = some twin ∧ related value twin := by
  cases pair with
  | some values => exact ⟨_, rfl, values⟩

/-- Each entry of one table has a related one in another table of the same size. Since the texts
are distinct, the other table has no text besides. -/
theorem rel_get?_of_length_eq {related : α → α → Prop} (distinct : (keys table).Nodup)
    (sameLength : table.length = other.length)
    (covered : ∀ entry ∈ table, ∃ value, get? entry.1 other = some value ∧ related entry.2 value)
    (key : String) : Option.Rel related (get? key table) (get? key other) := by
  have included : keys table ⊆ keys other := by
    intro text member
    obtain ⟨entry, inside, rfl⟩ := List.mem_map.mp member
    obtain ⟨value, found, -⟩ := covered entry inside
    exact mem_keys_iff.mpr ⟨value, found⟩
  have arranged : (keys table).Perm (keys other) :=
    (distinct.subperm included).perm_of_length_le (by simp [keys, sameLength])
  cases found : get? key table with
  | none =>
      have absent : key ∉ keys other := by
        rw [← arranged.mem_iff, ← get?_eq_none_iff]
        exact found
      rw [(get?_eq_none_iff key other).mpr absent]
      exact .none
  | some value =>
      obtain ⟨twin, foundTwin, values⟩ := covered _ (mem_of_get? found)
      rw [foundTwin]
      exact .some values

theorem length_eq_of_rel_get? {related : α → α → Prop} (distinct : (keys table).Nodup)
    (otherDistinct : (keys other).Nodup)
    (equal : ∀ key, Option.Rel related (get? key table) (get? key other)) :
    table.length = other.length := by
  have arranged : (keys table).Perm (keys other) := by
    rw [List.perm_ext_iff_of_nodup distinct otherDistinct]
    intro key
    rw [mem_keys_iff, mem_keys_iff]
    have found := equal key
    generalize get? key table = first at found ⊢
    generalize get? key other = second at found ⊢
    cases found <;> simp
  simpa [keys] using arranged.length_eq

end RuleLisp.Table
