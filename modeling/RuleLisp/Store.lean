import RuleLisp.Value.Printer

/-! # The store

The state of a session: the scopes with their variables, the functions of the host, and the lines
that were printed. Scopes and functions are numbered in the order in which they came, and none is
ever removed, so a number stays good for as long as the session lasts.
-/

namespace RuleLisp

/-- A function of the host. It sees its arguments and nothing else. -/
abbrev HostFunction :=
  List Value → Except RunError Value

structure Store where
  /-- The variables of each scope in the order in which they were first written. -/
  scopes : Array (Table Value)
  /-- The number of functions that programs have defined. -/
  closures : Nat
  hosts : Array HostFunction
  printed : Array String

def Environment.root : Environment :=
  ⟨0, []⟩

namespace Store

def initial : Store :=
  ⟨#[[]], 0, #[], #[]⟩

/-! ## Reading -/

def scope (store : Store) (number : Nat) : Table Value :=
  store.scopes.getD number []

def lookup? (store : Store) (env : Environment) (name : String) : Option Value :=
  env.scopes.findSome? fun number => Table.get? name (store.scope number)

def contains (store : Store) (env : Environment) (name : String) : Bool :=
  env.scopes.any fun number => Table.contains name (store.scope number)

def containsLocal (store : Store) (env : Environment) (name : String) : Bool :=
  Table.contains name (store.scope env.scope)

/-- The names of the nearest scope in the order in which they were first written. -/
def localNames (store : Store) (env : Environment) : List String :=
  Table.keys (store.scope env.scope)

/-! ## Writing -/

/-- Writes a variable of the nearest scope. Other scopes are never written. -/
def define (store : Store) (env : Environment) (name : String) (value : Value) : Store :=
  { store with scopes := store.scopes.modify env.scope (Table.insert name value) }

def nest (store : Store) (env : Environment) (bindings : Table Value) : Environment × Store :=
  (env.nest store.scopes.size, { store with scopes := store.scopes.push bindings })

def addRoot (store : Store) : Environment × Store :=
  (⟨store.scopes.size, []⟩, { store with scopes := store.scopes.push [] })

def inputMark : Char :=
  '$'

def isInputName (name : String) : Bool :=
  name.toList.head? = some inputMark

/-- The name of an input, which may be given with its mark or without. -/
def inputName (name : String) : String :=
  if isInputName name then name else String.ofList [inputMark] ++ name

def bindInput (store : Store) (env : Environment) (name : String) (value : Value) : Store :=
  store.define env (inputName name) value

def defineHost (store : Store) (env : Environment) (name : String) (run : HostFunction) : Store :=
  let callee := Function.host store.hosts.size name
  { store with hosts := store.hosts.push run }.define env name (.function callee)

def defineClosure (store : Store) (env : Environment) (name : String) (params : List String)
    (body : Expr) : Store :=
  let callee := Function.closure ⟨store.closures, name, params, body, env⟩
  { store with closures := store.closures + 1 }.define env name (.function callee)

def host (store : Store) (number : Nat) : HostFunction :=
  store.hosts.getD number fun _ => .ok .null

def print (store : Store) (line : String) : Store :=
  { store with printed := store.printed.push line }

/-! ## Scopes after a write -/

theorem scope_eq (store : Store) (number : Nat) :
    store.scope number = store.scopes[number]?.getD [] :=
  Array.getD_eq_getD_getElem?

theorem scope_eq_nil {store : Store} {number : Nat} (unknown : store.scopes.size ≤ number) :
    store.scope number = [] := by
  rw [scope_eq, Array.getElem?_eq_none unknown]
  rfl

@[simp] theorem size_define (store : Store) (env : Environment) (name : String) (value : Value) :
    (store.define env name value).scopes.size = store.scopes.size :=
  Array.size_modify

theorem scope_define (store : Store) (env : Environment) (name : String) (value : Value)
    (number : Nat) :
    (store.define env name value).scope number =
      if number = env.scope ∧ number < store.scopes.size then
        Table.insert name value (store.scope number)
      else store.scope number := by
  rw [scope_eq, scope_eq, define, Array.getElem?_modify]
  by_cases nearest : env.scope = number
  · by_cases known : number < store.scopes.size
    · rw [if_pos nearest, if_pos ⟨nearest.symm, known⟩, Array.getElem?_eq_getElem known]
      rfl
    · rw [if_pos nearest, if_neg fun both => known both.2,
        Array.getElem?_eq_none (Nat.not_lt.mp known)]
      rfl
  · rw [if_neg nearest, if_neg fun both => nearest both.1.symm]

theorem forall_mem_scope_define {property : Value → Prop} {store : Store} {number : Nat}
    (all : ∀ binding ∈ store.scope number, property binding.2) (env : Environment) (name : String)
    {value : Value} (holds : property value) :
    ∀ binding ∈ (store.define env name value).scope number, property binding.2 := by
  rw [scope_define]
  split
  · exact Table.forall_mem_insert all name holds
  · exact all

@[simp] theorem size_nest (store : Store) (env : Environment) (bindings : Table Value) :
    (store.nest env bindings).2.scopes.size = store.scopes.size + 1 :=
  Array.size_push _

theorem scope_nest (store : Store) (env : Environment) (bindings : Table Value) (number : Nat) :
    (store.nest env bindings).2.scope number =
      if number = store.scopes.size then bindings else store.scope number := by
  rw [scope_eq, scope_eq, nest, Array.getElem?_push]
  split <;> rfl

end Store

end RuleLisp
