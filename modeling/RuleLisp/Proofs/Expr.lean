import RuleLisp.Expr

/-! # What an expression holds

The atoms of an expression and the keys of its object literals, at any depth, the names that it
writes and looks up, and the change of all its atoms at once.
-/

namespace RuleLisp.Expr

/-! ## Induction -/

/-- To show something of every expression, show it of an expression whose parts have it. -/
@[elab_as_elim, induction_eliminator]
theorem induction {motive : Expr → Prop} (atom : ∀ word, motive (.atom word))
    (list : ∀ items, (∀ item ∈ items, motive item) → motive (.list items))
    (object : ∀ spread properties, (∀ base ∈ spread, motive base) →
      (∀ property ∈ properties, motive property.2) → motive (.object spread properties))
    (function : ∀ name params body, motive body → motive (.function name params body))
    (expr : Expr) : motive expr := by
  refine @Expr.rec motive (fun items => ∀ item ∈ items, motive item)
    (fun spread => ∀ base ∈ spread, motive base)
    (fun properties => ∀ property ∈ properties, motive property.2)
    (fun property => motive property.2) atom list object function ?_ ?_ ?_ ?_ ?_ ?_ ?_ expr
  · simp
  · intro head tail first rest
    exact List.forall_mem_cons.mpr ⟨first, rest⟩
  · simp
  · intro base holds other same
    cases same
    exact holds
  · simp
  · intro head tail first rest
    exact List.forall_mem_cons.mpr ⟨first, rest⟩
  · intro key value holds
    exact holds

/-! ## Atoms -/

mutual

/-- The atoms of an expression in order. Names of functions and parameters and keys of object
literals are no atoms. -/
def atoms : Expr → List Atom
  | .atom word => [word]
  | .list items => rowAtoms items
  | .object spread properties => baseAtoms spread ++ propertyAtoms properties
  | .function _ _ body => body.atoms

def rowAtoms : List Expr → List Atom
  | [] => []
  | item :: rest => item.atoms ++ rowAtoms rest

def baseAtoms : Option Expr → List Atom
  | none => []
  | some base => base.atoms

def propertyAtoms : List (String × Expr) → List Atom
  | [] => []
  | (_, value) :: rest => value.atoms ++ propertyAtoms rest

end

theorem mem_rowAtoms {items : List Expr} {word : Atom} :
    word ∈ rowAtoms items ↔ ∃ item ∈ items, word ∈ item.atoms := by
  induction items with
  | nil => simp [rowAtoms]
  | cons item rest induction => simp [rowAtoms, induction]

theorem mem_baseAtoms {spread : Option Expr} {word : Atom} :
    word ∈ baseAtoms spread ↔ ∃ base ∈ spread, word ∈ base.atoms := by
  cases spread <;> simp [baseAtoms]

theorem mem_propertyAtoms {properties : List (String × Expr)} {word : Atom} :
    word ∈ propertyAtoms properties ↔ ∃ property ∈ properties, word ∈ property.2.atoms := by
  induction properties with
  | nil => simp [propertyAtoms]
  | cons property rest induction => simp [propertyAtoms, induction]

/-- A key that is written again loses its earlier value, but no value is made up. -/
theorem propertyAtoms_ofList_subset (properties : List (String × Expr)) :
    propertyAtoms (Table.ofList properties) ⊆ propertyAtoms properties := by
  intro word member
  rcases mem_propertyAtoms.mp member with ⟨property, among, inside⟩
  exact mem_propertyAtoms.mpr ⟨property, Table.mem_of_mem_ofList among, inside⟩

/-! ## Keys -/

mutual

def keys : Expr → List String
  | .atom _ => []
  | .list items => rowKeys items
  | .object spread properties => baseKeys spread ++ propertyKeys properties
  | .function _ _ body => body.keys

def rowKeys : List Expr → List String
  | [] => []
  | item :: rest => item.keys ++ rowKeys rest

def baseKeys : Option Expr → List String
  | none => []
  | some base => base.keys

def propertyKeys : List (String × Expr) → List String
  | [] => []
  | (key, value) :: rest => key :: (value.keys ++ propertyKeys rest)

end

theorem key_mem_propertyKeys {properties : List (String × Expr)} {key : String} {value : Expr}
    (member : (key, value) ∈ properties) : key ∈ propertyKeys properties := by
  induction properties with
  | nil => cases member
  | cons first rest induction =>
      rw [propertyKeys]
      rcases List.mem_cons.mp member with rfl | member
      · exact List.mem_cons_self
      · exact List.mem_cons_of_mem _ (List.mem_append_right _ (induction member))

theorem keys_subset_propertyKeys {properties : List (String × Expr)} {key : String}
    {value : Expr} (member : (key, value) ∈ properties) : value.keys ⊆ propertyKeys properties := by
  induction properties with
  | nil => cases member
  | cons first rest induction =>
      rw [propertyKeys]
      rcases List.mem_cons.mp member with rfl | member
      · exact List.Subset.trans (List.subset_append_left ..) (List.subset_cons_self ..)
      · exact List.Subset.trans (induction member)
          (List.Subset.trans (List.subset_append_right ..) (List.subset_cons_self ..))

/-! ## Written names -/

/-- The name that a list writes: the first of two operands of `set`. -/
def assigned : List Expr → List String
  | [head, target, _] => if head.text? = some "set" then target.text?.toList else []
  | _ => []

mutual

/-- The names that an expression may write where it stands. What the body of a function writes is
written elsewhere. -/
def written : Expr → List String
  | .atom _ => []
  | .list items => assigned items ++ rowWritten items
  | .object spread properties => baseWritten spread ++ propertyWritten properties
  | .function name _ _ => [name]

def rowWritten : List Expr → List String
  | [] => []
  | item :: rest => item.written ++ rowWritten rest

def baseWritten : Option Expr → List String
  | none => []
  | some base => base.written

def propertyWritten : List (String × Expr) → List String
  | [] => []
  | (_, value) :: rest => value.written ++ propertyWritten rest

end

theorem mem_rowWritten {items : List Expr} {name : String} :
    name ∈ rowWritten items ↔ ∃ item ∈ items, name ∈ item.written := by
  induction items with
  | nil => simp [rowWritten]
  | cons item rest induction => simp [rowWritten, induction]

theorem mem_baseWritten {spread : Option Expr} {name : String} :
    name ∈ baseWritten spread ↔ ∃ base ∈ spread, name ∈ base.written := by
  cases spread <;> simp [baseWritten]

theorem mem_propertyWritten {properties : List (String × Expr)} {name : String} :
    name ∈ propertyWritten properties ↔ ∃ property ∈ properties, name ∈ property.2.written := by
  induction properties with
  | nil => simp [propertyWritten]
  | cons property rest induction => simp [propertyWritten, induction]

/-! ## Looked-up names -/

/-- The name that a list calls: the text of its head, quoted or not. -/
def called : List Expr → List String
  | [] => []
  | head :: _ => head.text?.toList

mutual

/-- The names that an expression, or the body of a function that it defines, may look up: its
symbols and the names that its lists call. -/
def lookups : Expr → List String
  | .atom word => word.symbol?.toList
  | .list items => called items ++ rowLookups items
  | .object spread properties => baseLookups spread ++ propertyLookups properties
  | .function _ _ body => body.lookups

def rowLookups : List Expr → List String
  | [] => []
  | item :: rest => item.lookups ++ rowLookups rest

def baseLookups : Option Expr → List String
  | none => []
  | some base => base.lookups

def propertyLookups : List (String × Expr) → List String
  | [] => []
  | (_, value) :: rest => value.lookups ++ propertyLookups rest

end

theorem mem_rowLookups {items : List Expr} {name : String} :
    name ∈ rowLookups items ↔ ∃ item ∈ items, name ∈ item.lookups := by
  induction items with
  | nil => simp [rowLookups]
  | cons item rest induction => simp [rowLookups, induction]

theorem mem_baseLookups {spread : Option Expr} {name : String} :
    name ∈ baseLookups spread ↔ ∃ base ∈ spread, name ∈ base.lookups := by
  cases spread <;> simp [baseLookups]

theorem mem_propertyLookups {properties : List (String × Expr)} {name : String} :
    name ∈ propertyLookups properties ↔ ∃ property ∈ properties, name ∈ property.2.lookups := by
  induction properties with
  | nil => simp [propertyLookups]
  | cons property rest induction => simp [propertyLookups, induction]

/-- Every name that is looked up is the text of an atom. -/
theorem exists_atom_of_mem_lookups {expr : Expr} {name : String} (member : name ∈ expr.lookups) :
    ∃ word ∈ expr.atoms, word.text? = some name := by
  induction expr with
  | atom word =>
      rw [lookups, Option.mem_toList] at member
      cases word with
      | symbol text => exact ⟨.symbol text, by simp [atoms], member⟩
      | null | bool | number | string => cases member
  | list items induction =>
      rw [lookups, List.mem_append] at member
      rw [atoms]
      rcases member with head | inside
      · rcases items with _ | ⟨_ | _ | _ | _, rest⟩ <;> simp [called, text?] at head
        next word => exact ⟨word, mem_rowAtoms.mpr ⟨.atom word, by simp, by simp [atoms]⟩, head⟩
      · obtain ⟨item, among, inside⟩ := mem_rowLookups.mp inside
        obtain ⟨word, written, text⟩ := induction item among inside
        exact ⟨word, mem_rowAtoms.mpr ⟨item, among, written⟩, text⟩
  | object spread properties baseInduction induction =>
      rw [lookups, List.mem_append] at member
      simp only [atoms, List.mem_append]
      rcases member with inside | inside
      · obtain ⟨base, among, inside⟩ := mem_baseLookups.mp inside
        obtain ⟨word, written, text⟩ := baseInduction base among inside
        exact ⟨word, .inl (mem_baseAtoms.mpr ⟨base, among, written⟩), text⟩
      · obtain ⟨property, among, inside⟩ := mem_propertyLookups.mp inside
        obtain ⟨word, written, text⟩ := induction property among inside
        exact ⟨word, .inr (mem_propertyAtoms.mpr ⟨property, among, written⟩), text⟩
  | function name params body induction => exact induction member

/-! ## Changing atoms -/

section

variable (change : Atom → Atom)

mutual

def mapAtoms : Expr → Expr
  | .atom word => .atom (change word)
  | .list items => .list (mapRow items)
  | .object spread properties => .object (mapBase spread) (mapProperties properties)
  | .function name params body => .function name params body.mapAtoms

def mapRow : List Expr → List Expr
  | [] => []
  | item :: rest => item.mapAtoms :: mapRow rest

def mapBase : Option Expr → Option Expr
  | none => none
  | some base => some base.mapAtoms

def mapProperties : List (String × Expr) → List (String × Expr)
  | [] => []
  | (key, value) :: rest => (key, value.mapAtoms) :: mapProperties rest

end

theorem keys_mapProperties (properties : List (String × Expr)) :
    Table.keys (mapProperties change properties) = Table.keys properties := by
  induction properties with
  | nil => simp [mapProperties]
  | cons property rest induction =>
      simp only [Table.keys] at induction
      simp [mapProperties, Table.keys, induction]

variable {change}

theorem mapRow_eq_self_iff {items : List Expr} :
    mapRow change items = items ↔ ∀ item ∈ items, item.mapAtoms change = item := by
  induction items with
  | nil => simp [mapRow]
  | cons item rest induction => simp [mapRow, induction]

theorem mapBase_eq_self_iff {spread : Option Expr} :
    mapBase change spread = spread ↔ ∀ base ∈ spread, base.mapAtoms change = base := by
  cases spread <;> simp [mapBase]

theorem mapProperties_eq_self_iff {properties : List (String × Expr)} :
    mapProperties change properties = properties ↔
      ∀ property ∈ properties, property.2.mapAtoms change = property.2 := by
  induction properties with
  | nil => simp [mapProperties]
  | cons property rest induction =>
      rw [mapProperties, List.cons.injEq, induction, List.forall_mem_cons, Prod.ext_iff]
      simp

/-- An expression stays the same if and only if its atoms do. -/
theorem mapAtoms_eq_self_iff {expr : Expr} :
    expr.mapAtoms change = expr ↔ ∀ word ∈ expr.atoms, change word = word := by
  induction expr with
  | atom word => simp [mapAtoms, atoms]
  | list items induction =>
      simp only [mapAtoms, Expr.list.injEq, mapRow_eq_self_iff, atoms, mem_rowAtoms]
      grind
  | object spread properties baseInduction induction =>
      simp only [mapAtoms, Expr.object.injEq, mapBase_eq_self_iff, mapProperties_eq_self_iff,
        atoms, List.mem_append, mem_baseAtoms, mem_propertyAtoms]
      grind
  | function name params body induction => simp [mapAtoms, atoms, induction]

end

end RuleLisp.Expr
