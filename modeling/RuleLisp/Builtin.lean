import RuleLisp.Eval
import RuleLisp.Expr.Printer

/-! # Builtin operations

The operations that a program can call by a keyword. An operation gets its operands unevaluated
and decides which of them it evaluates, always from left to right.
-/

namespace RuleLisp

inductive Comparison where
  | greater
  | less
  | greaterEqual
  | lessEqual
deriving DecidableEq, Repr

/-- Whether a comparison holds. It never holds of what is not a number. -/
def Comparison.holds (left right : Float) : Comparison → Bool
  | greater => right < left
  | less => left < right
  | greaterEqual => right ≤ left
  | lessEqual => left ≤ right

inductive Arity where
  | exactly (count : Nat)
  | atLeast (count : Nat)
deriving DecidableEq, Repr

def Arity.text : Arity → String
  | exactly count => "exactly " ++ Nat.repr count
  | atLeast count => "at least " ++ Nat.repr count

inductive Builtin where
  | add
  | subtract
  | multiply
  | divide
  | remainder
  | compare (comparison : Comparison)
  | equal
  | unequal
  | and
  | or
  | not
  | choose
  | list
  | firstItem
  | otherItems
  | concat
  | length
  | assign
  | print
deriving DecidableEq, Repr

namespace Builtin

def keywords : List (String × Builtin) :=
  [("+", add), ("-", subtract), ("*", multiply), ("/", divide), ("%", remainder),
    (">", compare .greater), ("<", compare .less), (">=", compare .greaterEqual),
    ("<=", compare .lessEqual), ("==", equal), ("!=", unequal), ("and", and), ("or", or),
    ("not", not), ("if", choose), ("list", list), ("car", firstItem), ("first", firstItem),
    ("cdr", otherItems), ("rest", otherItems), ("concat", concat), ("length", length),
    ("set", assign), ("print", print)]

def ofKeyword? (keyword : String) : Option Builtin :=
  Table.get? keyword keywords

def arity : Builtin → Arity
  | subtract | divide => .atLeast 1
  | remainder | compare _ | equal | unequal | assign => .exactly 2
  | not | firstItem | otherItems | length => .exactly 1
  | choose => .exactly 3
  | add | multiply | and | or | list | concat | print => .atLeast 0

def expected (builtin : Builtin) : String :=
  builtin.arity.text

end Builtin

/-! ## Operands -/

/-- An operand: its expression, and its value if it has already been evaluated. -/
structure Operand where
  expr : Expr
  known : Option Value

namespace Operand

variable {m : Type → Type} [Monad m] (eval : EvaluatorIn m) (env : Environment)

def value (operand : Operand) : m Value :=
  match operand.known with
  | some value => pure value
  | none => eval operand.expr env

def number [MonadExceptOf RunError m] (operand : Operand) : m Float := do
  let value ← operand.value eval env
  Run.ofExcept value.toNumber

def values (operands : List Operand) : m (List Value) :=
  operands.mapM (value eval env)

end Operand

/-! ## Operations -/

namespace Builtin

variable {m : Type → Type} [Monad m] [MonadStateOf Store m] [MonadExceptOf RunError m]
  (eval : EvaluatorIn m) (env : Environment)

def accumulate (combine : Float → Float → m Float) (start : Float) (operands : List Operand) :
    m Value := do
  let total ← operands.foldlM
    (fun total operand => do combine total (← operand.number eval env)) start
  return .number total

def quotient (dividend divisor : Float) : m Float :=
  if divisor == 0 then throw .divisionByZero else return dividend / divisor

def remainderOf (dividend divisor : Float) : m Float :=
  if divisor == 0 then throw .divisionByZero else return Number.remainder dividend divisor

/-- Whether all operands are true. It stops at the first that is not. -/
def all : List Operand → m Value
  | [] => return .bool true
  | operand :: rest => do
      if (← operand.value eval env).isTruthy then all rest else return .bool false

/-- Whether some operand is true. It stops at the first that is. -/
def any : List Operand → m Value
  | [] => return .bool false
  | operand :: rest => do
      if (← operand.value eval env).isTruthy then return .bool true else any rest

def itemsOf (keyword : String) : Value → m (List Value)
  | .list items => return items
  | other => throw (.wrongType (keyword ++ " requires a list, found " ++ other.typeName))

def spliced : Value → List Value
  | .list items => items
  | other => [other]

def lengthOf : Value → m Value
  | .string text => return .number (Number.ofNat text.length)
  | .list items => return .number (Number.ofNat items.length)
  | other =>
      throw (.wrongType ("length requires a string or list, found " ++ other.typeName))

def assignTo (target value : Operand) : m Value :=
  match target.expr.text? with
  | none =>
      throw (.wrongType ("set requires a variable name, found `" ++ target.expr.render ++ "`"))
  | some name => do
      let value ← value.value eval env
      modify (·.define env name value)
      return value

def printLine (values : List Value) : m Value := do
  modify (·.print (" ".intercalate (values.map Value.render)))
  return values.getLast?.getD .null

def run (keyword : String) (builtin : Builtin) (operands : List Operand) : m Value :=
  match builtin, operands with
  | add, operands => accumulate eval env (fun sum operand => return sum + operand) 0 operands
  | multiply, operands =>
      accumulate eval env (fun product operand => return product * operand) 1 operands
  | subtract, [operand] => do return .number (-(← operand.number eval env))
  | subtract, first :: rest => do
      accumulate eval env (fun difference operand => return difference - operand)
        (← first.number eval env) rest
  | divide, first :: rest => do
      accumulate eval env quotient (← first.number eval env) rest
  | remainder, [left, right] => do
      let left ← left.number eval env
      let right ← right.number eval env
      return .number (← remainderOf left right)
  | compare comparison, [left, right] => do
      let left ← left.number eval env
      let right ← right.number eval env
      return .bool (comparison.holds left right)
  | equal, [left, right] => do
      let left ← left.value eval env
      let right ← right.value eval env
      return .bool (left == right)
  | unequal, [left, right] => do
      let left ← left.value eval env
      let right ← right.value eval env
      return .bool (left != right)
  | and, operands => all eval env operands
  | or, operands => any eval env operands
  | not, [operand] => do return .bool (!(← operand.value eval env).isTruthy)
  | choose, [condition, consequent, alternative] => do
      if (← condition.value eval env).isTruthy then consequent.value eval env
      else alternative.value eval env
  | list, operands => do return .list (← Operand.values eval env operands)
  | firstItem, [operand] => do
      let items ← itemsOf keyword (← operand.value eval env)
      return items.head?.getD .null
  | otherItems, [operand] => do
      let items ← itemsOf keyword (← operand.value eval env)
      return .list items.tail
  | concat, operands => do
      return .list ((← Operand.values eval env operands).flatMap spliced)
  | length, [operand] => do lengthOf (← operand.value eval env)
  | assign, [target, value] => assignTo eval env target value
  | print, operands => do printLine (← Operand.values eval env operands)
  | builtin, operands => throw (.arity keyword builtin.expected operands.length)

end Builtin

end RuleLisp
