import RuleLisp.Builtin

/-! # Evaluation

Evaluation is bounded by a depth: the expressions inside an expression, and the body of a function
that it calls, are evaluated one level deeper. One level of evaluation is written against an
arbitrary evaluator for the levels below it, and evaluation proper ties the knot as often as the
limit allows.
-/

namespace RuleLisp.Eval

/-- The name that is never read as the key of a field. -/
def negation : String :=
  "not"

section

variable {m : Type → Type} [Monad m] [MonadStateOf Store m] [MonadExceptOf RunError m]
  (eval : EvaluatorIn m)

/-! ## Calls -/

/-- The variables of a call. Missing arguments are null and extra ones are dropped. -/
def parameters : List String → List Value → List (String × Value)
  | [], _ => []
  | param :: params, [] => (param, .null) :: parameters params []
  | param :: params, arg :: args => (param, arg) :: parameters params args

/-- Calls a function. The body of a function that the program defined runs in a new scope inside
the scopes that the function was defined in. -/
def call (callee : Function) (args : List Value) : m Value :=
  match callee with
  | .host number _ => do Run.ofExcept ((← get).host number args)
  | .closure definition => do
      let bindings := Table.ofList (parameters definition.params args)
      let env ← modifyGet (·.nest definition.env bindings)
      eval definition.body env

def callWith (env : Environment) (callee : Function) (args : List Expr) : m Value := do
  let values ← args.mapM (eval · env)
  call eval callee values

def callBuiltin (env : Environment) (name : String) (operands : List Operand) : m Value :=
  match Builtin.ofKeyword? name with
  | some builtin => builtin.run eval env name operands
  | none => throw (.unknownFunction name)

/-- Calls what a name stands for: a function that it is bound to, or else an operation. -/
def callNamed (env : Environment) (name : String) (args : List Expr) (operands : List Operand) :
    m Value := do
  match ← Run.lookup? env name with
  | some (.function callee) => callWith eval env callee args
  | _ => callBuiltin eval env name operands

/-- A list with one argument whose head is bound to nothing reads the field that the head names, if
the argument has such a field. -/
def fieldOrCall (env : Environment) (name : String) (arg : Expr) : m Value := do
  let target ← eval arg env
  match target.field? name with
  | some field => return field
  | none => callNamed eval env name [arg] [⟨arg, some target⟩]

def listNamed (env : Environment) (name : String) (args : List Expr) : m Value := do
  let bound := (← get).contains env name
  match args with
  | [arg] =>
      if name ≠ negation ∧ ¬bound then fieldOrCall eval env name arg
      else callNamed eval env name [arg] [⟨arg, none⟩]
  | args => callNamed eval env name args (args.map fun arg => ⟨arg, none⟩)

def listComputed (env : Environment) (head : Expr) (args : List Expr) : m Value := do
  match ← eval head env with
  | .function callee => callWith eval env callee args
  | _ => throw (.unknownFunction head.render)

def list (env : Environment) : List Expr → m Value
  | [] => return .null
  | head :: args =>
      match head.text? with
      | some name => listNamed eval env name args
      | none => listComputed eval env head args

/-! ## Other expressions -/

/-- Evaluates an atom. A symbol that is bound to nothing stands for its own text, unless it names
an input. -/
def atom (env : Environment) : Atom → m Value
  | .symbol name => do
      match ← Run.lookup? env name with
      | some value => return value
      | none =>
          if Store.isInputName name then throw (.unknownInput name) else return .string name
  | other => return other.value

def base (env : Environment) : Option Expr → m (Table Value)
  | none => return []
  | some spread => do
      match ← eval spread env with
      | .object fields => return fields
      | other => throw (.invalidSpread other.typeName)

/-- Evaluates an object literal: the object that it extends, then its properties in order. -/
def object (env : Environment) (spread : Option Expr) (properties : List (String × Expr)) :
    m Value := do
  let start ← base eval env spread
  let fields ← properties.foldlM
    (fun fields property => do return Table.insert property.1 (← eval property.2 env) fields) start
  return .object fields

/-- Evaluates an expression, given how the expressions inside it are evaluated. -/
def step (expr : Expr) (env : Environment) : m Value :=
  match expr with
  | .atom word => atom env word
  | .list items => list eval env items
  | .object spread properties => object eval env spread properties
  | .function name params body => do
      modify (·.defineClosure env name params body)
      return .null

end

/-! ## Evaluation to a depth -/

/-- Evaluates an expression with a number of levels remaining. An evaluation that needs more levels
fails, and says how many there were. -/
def within (limit : Nat) : (remaining : Nat) → Evaluator
  | 0 => fun _ _ => throw (.stackOverflow limit)
  | remaining + 1 => step (within limit remaining)

def expr (limit : Nat) : Evaluator :=
  within limit limit

def exprs (limit : Nat) (env : Environment) (exprs : List Expr) : Run Value :=
  exprs.foldlM (fun _ next => expr limit next env) .null

def apply (limit : Nat) (callee : Function) (args : List Value) : Run Value :=
  call (expr limit) callee args

end RuleLisp.Eval
