import RuleLisp.Proofs.Eval.WellFormed
import RuleLisp.Proofs.Expr.Signature
import RuleLisp.Proofs.Program.Lines

/-! # Sessions

A host opens scopes, writes variables, registers functions, runs sources and calls functions, in any
order and however each of these ends. What it gets from one step it may use in the next ones. In
every session that comes of this, the store stays well-formed.
-/

namespace RuleLisp

namespace Builtin

/-- The number of operands that an operation reads by their places. -/
def placed (builtin : Builtin) : Nat :=
  match builtin.arity with
  | .exactly count | .atLeast count => count

theorem run_of_length_lt (eval : Evaluator) (env : Environment) (keyword : String)
    {builtin : Builtin} {operands : List Operand} (missing : operands.length < builtin.placed) :
    run eval env keyword builtin operands =
      throw (.arity keyword builtin.expected operands.length) := by
  apply run_of_not_admits
  revert missing
  rw [placed]
  cases builtin.arity with
  | exactly count => exact Nat.ne_of_lt
  | atLeast count => exact Nat.not_le_of_gt

end Builtin

structure Session where
  store : Store
  environments : List Environment
  values : List Value

namespace Session

def initial : Session :=
  ⟨.initial, [.root], []⟩

def after {ε : Type} (session : Session) (ran : Except ε Value × Store) : Session :=
  { session with store := ran.2, values := ran.1.toOption.toList ++ session.values }

theorem after_mapError {ε δ : Type} (session : Session) (change : ε → δ)
    (ran : Except ε Value × Store) :
    session.after (ran.1.mapError change, ran.2) = session.after ran := by
  rcases ran with ⟨error | value, after⟩ <;> rfl

section

variable (scopes : Environment → Prop) (programs : Expr → Prop)

/-- The values that a host can make. It takes apart and puts together what it has, and it may define
functions of its own. -/
inductive Makes (session : Session) : Value → Prop
  | held {value : Value} (member : value ∈ session.values) : Makes session value
  | null : Makes session .null
  | bool (value : Bool) : Makes session (.bool value)
  | number (value : Float) : Makes session (.number value)
  | string (text : String) : Makes session (.string text)
  | list {items : List Value} (all : ∀ item ∈ items, Makes session item) :
      Makes session (.list items)
  | object {entries : List (String × Value)} (all : ∀ entry ∈ entries, Makes session entry.2) :
      Makes session (.object (Table.ofList entries))
  | item {items : List Value} {item : Value} (list : Makes session (.list items))
      (member : item ∈ items) : Makes session item
  | field {fields : List (String × Value)} {field : String × Value}
      (object : Makes session (.object fields)) (member : field ∈ fields) : Makes session field.2
  | closure {definition : Closure} (member : definition.env ∈ session.environments)
      (allowed : programs (.function definition.name definition.params definition.body)) :
      Makes session (.function (.closure definition))

def Asks (session : Session) : Task → Prop
  | .exprs env items => env ∈ session.environments ∧ ∀ item ∈ items, programs item
  | .expr env item => env ∈ session.environments ∧ programs item
  | .call callee args =>
      Makes programs session (.function callee) ∧ ∀ arg ∈ args, Makes programs session arg

/-- The sessions that a host can reach, given which environments it works in and which expressions
its programs have. -/
inductive Reached : Session → Prop
  | start (fine : scopes .root) : Reached initial
  | root {session : Session} (reached : Reached session) (fine : scopes session.store.addRoot.1) :
      Reached { session with
        store := session.store.addRoot.2
        environments := session.store.addRoot.1 :: session.environments }
  | child {session : Session} {env : Environment} (reached : Reached session)
      (member : env ∈ session.environments) (fine : scopes (session.store.nest env []).1) :
      Reached { session with
        store := (session.store.nest env []).2
        environments := (session.store.nest env []).1 :: session.environments }
  | capture {session : Session} {definition : Closure} (reached : Reached session)
      (made : Makes programs session (.function (.closure definition)))
      (fine : scopes definition.env) :
      Reached { session with environments := definition.env :: session.environments }
  | lookup {session : Session} {env : Environment} {name : String} {value : Value}
      (reached : Reached session) (member : env ∈ session.environments)
      (found : session.store.lookup? env name = some value) :
      Reached { session with values := value :: session.values }
  | define {session : Session} {env : Environment} {value : Value} (reached : Reached session)
      (member : env ∈ session.environments) (made : Makes programs session value)
      (name : String) : Reached { session with store := session.store.define env name value }
  | bindInput {session : Session} {env : Environment} {value : Value} (reached : Reached session)
      (member : env ∈ session.environments) (made : Makes programs session value)
      (name : String) : Reached { session with store := session.store.bindInput env name value }
  | bindInputs {session : Session} {env : Environment} (reached : Reached session)
      (member : env ∈ session.environments) (text : String) :
      Reached { session with store := ((Inputs.bindText env text).run session.store).2 }
  | defineHost {session : Session} {env : Environment} {run : HostFunction}
      (reached : Reached session) (member : env ∈ session.environments)
      (made : ∀ args value, run args = .ok value →
        Makes programs { session with values := args ++ session.values } value)
      (name : String) : Reached { session with store := session.store.defineHost env name run }
  | run {session : Session} {env : Environment} (reached : Reached session)
      (member : env ∈ session.environments) (limit : Nat) (source : String)
      (fine : ∀ exprs, Expr.parse limit source = .ok exprs → ∀ expr ∈ exprs, programs expr) :
      Reached (session.after ((Program.run limit env source).run session.store))
  | perform {session : Session} {task : Task} (reached : Reached session)
      (asked : session.Asks programs task) (limit remaining : Nat) :
      Reached (session.after ((task.within limit remaining).runOn session.store))

end

/-! ## Well-formed sessions -/

variable (scopes : Environment → Prop) (allowance : Allowance)

structure IsKnown (lineage : Lineage) (session : Session) : Prop where
  scopes : ∀ env ∈ session.environments, scopes env
  environments : ∀ env ∈ session.environments, lineage.Line env.scopes
  values : ∀ value ∈ session.values, Value.WellFormedIn (Lineage.Knows allowance) lineage value

/-- A session whose store is well-formed, and of which the host has nothing but what is there. -/
structure IsWellFormed (lineage : Lineage) (session : Session) : Prop extends
    IsKnown scopes allowance lineage session where
  store : session.store.IsWellFormed allowance lineage

variable {scopes allowance} {programs : Expr → Prop} {lineage later : Lineage} {session : Session}

namespace IsKnown

variable (known : session.IsKnown scopes allowance lineage)

include known

theorem mono (le : lineage ≤ later) : session.IsKnown scopes allowance later where
  scopes := known.scopes
  environments env member := (known.environments env member).mono le
  values value member := (known.values value member).mono (Lineage.monotone_knows allowance le)

theorem addValues {values : List Value}
    (all : ∀ value ∈ values, Value.WellFormedIn (Lineage.Knows allowance) lineage value) :
    IsKnown scopes allowance lineage { session with values := values ++ session.values } where
  scopes := known.scopes
  environments := known.environments
  values := List.forall_mem_append.mpr ⟨all, known.values⟩

variable (fits : ∀ env expr, scopes env → programs expr → allowance.Allows env.depth expr)

include fits

theorem of_makes {value : Value} (made : session.Makes programs value) :
    value.WellFormedIn (Lineage.Knows allowance) lineage := by
  induction made with
  | held member => exact known.values _ member
  | null => exact .null
  | bool value => exact .bool value
  | number value => exact .number value
  | string text => exact .string text
  | list _ induction => exact .list induction
  | object _ induction =>
      apply Value.IsWellFormed.object (Table.nodup_keys_ofList _)
      intro entry member
      exact induction entry (Table.mem_of_mem_ofList member)
  | item _ member induction => exact induction.item _ member
  | field _ member induction => exact induction.field _ member
  | closure member defines =>
      have allowed := fits _ _ (known.scopes _ member) defines
      exact .function ⟨known.environments _ member, allowance.body allowed⟩

theorem of_asks {task : Task} (asked : session.Asks programs task) :
    task.IsWellFormed allowance lineage := by
  cases task with
  | exprs env items =>
      refine ⟨known.environments env asked.1, ?_⟩
      intro item member
      exact fits env item (known.scopes env asked.1) (asked.2 item member)
  | expr env item =>
      exact ⟨known.environments env asked.1, fits env item (known.scopes env asked.1) asked.2⟩
  | call callee args =>
      refine ⟨(known.of_makes fits asked.1).of_function, ?_⟩
      intro arg member
      exact known.of_makes fits (asked.2 arg member)

theorem isHonest {run : HostFunction} (made : ∀ args value, run args = .ok value →
      Makes programs { session with values := args ++ session.values } value) :
    run.IsHonest allowance lineage := by
  intro later le args all value answered
  exact ((known.mono le).addValues all).of_makes fits (made args value answered)

end IsKnown

theorem isWellFormed_initial (fine : scopes .root) :
    initial.IsWellFormed scopes allowance .single where
  scopes := List.forall_mem_singleton.mpr fine
  environments := List.forall_mem_singleton.mpr Lineage.line_single
  values _ member := nomatch member
  store := Store.isWellFormed_initial allowance

namespace IsWellFormed

variable (wellFormed : session.IsWellFormed scopes allowance lineage)

include wellFormed

/-- What the host has stays good on a later store. -/
theorem onStore (le : lineage ≤ later) {store : Store}
    (storeWellFormed : store.IsWellFormed allowance later) :
    IsWellFormed scopes allowance later { session with store } where
  scopes := wellFormed.scopes
  environments := (wellFormed.mono le).environments
  values := (wellFormed.mono le).values
  store := storeWellFormed

theorem addEnvironment {env : Environment} (fine : scopes env) (line : lineage.Line env.scopes) :
    IsWellFormed scopes allowance lineage
      { session with environments := env :: session.environments } where
  scopes := List.forall_mem_cons.mpr ⟨fine, wellFormed.scopes⟩
  environments := List.forall_mem_cons.mpr ⟨line, wellFormed.environments⟩
  values := wellFormed.values
  store := wellFormed.store

theorem after {ε : Type} (le : lineage ≤ later) {ran : Except ε Value × Store}
    (storeWellFormed : ran.2.IsWellFormed allowance later)
    (result : ∀ value, ran.1 = .ok value → value.WellFormedIn (Lineage.Knows allowance) later) :
    (session.after ran).IsWellFormed scopes allowance later := by
  have kept := wellFormed.onStore le storeWellFormed
  refine ⟨kept.addValues ?_, kept.store⟩
  intro value member
  rcases ran with ⟨error | value, after⟩
  · cases member
  · exact List.mem_singleton.mp member ▸ result value rfl

theorem perform {task : Task} (taskWellFormed : task.IsWellFormed allowance lineage)
    (limit remaining : Nat) :
    ∃ later, (session.after ((task.within limit remaining).runOn session.store)).IsWellFormed
      scopes allowance later := by
  rcases Task.endsIn_within taskWellFormed limit remaining wellFormed.store with
    ⟨later, le, kept, result⟩
  exact ⟨later, wellFormed.after le kept result⟩

theorem run {env : Environment} (line : lineage.Line env.scopes) (limit : Nat) {source : String}
    (allowed : ∀ exprs, Expr.parse limit source = .ok exprs → ∀ expr ∈ exprs,
      allowance.Allows env.depth expr) :
    ∃ later, (session.after ((Program.run limit env source).run session.store)).IsWellFormed
      scopes allowance later := by
  cases parsed : Expr.parse limit source with
  | error error =>
      rw [Program.run_of_error parsed]
      refine ⟨lineage, wellFormed.after le_rfl wellFormed.store ?_⟩
      intro value impossible
      cases impossible
  | ok exprs =>
      have taskWellFormed : (Task.exprs env exprs).IsWellFormed allowance lineage :=
        ⟨line, allowed exprs parsed⟩
      rw [Program.run_of_ok parsed, after_mapError]
      exact wellFormed.perform taskWellFormed limit limit

end IsWellFormed

/-- Every step keeps a session well-formed. -/
theorem Reached.exists_isWellFormed
    (fits : ∀ env expr, scopes env → programs expr → allowance.Allows env.depth expr)
    (reached : session.Reached scopes programs) :
    ∃ lineage, session.IsWellFormed scopes allowance lineage := by
  induction reached with
  | start fine => exact ⟨.single, isWellFormed_initial fine⟩
  | root _ fine induction =>
      rcases induction with ⟨lineage, wellFormed⟩
      rcases wellFormed.store.addRoot with ⟨later, le, line, kept⟩
      exact ⟨later, (wellFormed.onStore le kept).addEnvironment fine line⟩
  | child _ member fine induction =>
      rcases induction with ⟨lineage, wellFormed⟩
      have empty : (Table.keys ([] : Table Value)).Nodup := List.nodup_nil
      rcases wellFormed.store.nest (wellFormed.environments _ member) empty
        (fun _ impossible => nomatch impossible) with ⟨later, le, line, kept⟩
      exact ⟨later, (wellFormed.onStore le kept).addEnvironment fine line⟩
  | capture _ made fine induction =>
      rcases induction with ⟨lineage, wellFormed⟩
      have known := (wellFormed.of_makes fits made).of_function
      exact ⟨lineage, wellFormed.addEnvironment fine known.1⟩
  | lookup _ member found induction =>
      rcases induction with ⟨lineage, wellFormed⟩
      have value := wellFormed.store.lookup found
      exact ⟨lineage, wellFormed.addValues (List.forall_mem_singleton.mpr value), wellFormed.store⟩
  | define _ member made name induction =>
      rcases induction with ⟨lineage, wellFormed⟩
      have value := wellFormed.of_makes fits made
      exact ⟨lineage, wellFormed.onStore le_rfl (wellFormed.store.define _ name value)⟩
  | bindInput _ member made name induction =>
      rcases induction with ⟨lineage, wellFormed⟩
      have value := wellFormed.of_makes fits made
      exact ⟨lineage, wellFormed.onStore le_rfl (wellFormed.store.define _ _ value)⟩
  | bindInputs _ member text induction =>
      rcases induction with ⟨lineage, wellFormed⟩
      exact ⟨lineage, wellFormed.onStore le_rfl (wellFormed.store.bindText _ text)⟩
  | defineHost _ member made name induction =>
      rcases induction with ⟨lineage, wellFormed⟩
      have honest := wellFormed.isHonest fits made
      exact ⟨lineage, wellFormed.onStore le_rfl (wellFormed.store.defineHost _ name honest)⟩
  | run _ member limit source fine induction =>
      rcases induction with ⟨lineage, wellFormed⟩
      apply wellFormed.run (wellFormed.environments _ member) limit
      intro exprs parsed expr among
      exact fits _ expr (wellFormed.scopes _ member) (fine exprs parsed expr among)
  | perform _ asked limit remaining induction =>
      rcases induction with ⟨lineage, wellFormed⟩
      exact wellFormed.perform (wellFormed.of_asks fits asked) limit remaining

/-- A task that the host asks for finds and leaves everything well-formed, at every moment. -/
theorem IsWellFormed.moments (wellFormed : session.IsWellFormed scopes allowance lineage)
    (fits : ∀ env expr, scopes env → programs expr → allowance.Allows env.depth expr) {task : Task}
    (asked : session.Asks programs task) (limit remaining : Nat) :
    ∃ later, lineage ≤ later ∧
      ∀ moment ∈ ((task.traced limit remaining).runOn [] session.store).2.1,
        ∃ between, between ≤ later ∧ moment.IsWellFormed allowance between := by
  rcases Task.holds_traced (wellFormed.of_asks fits asked) limit remaining [] session.store
    wellFormed.store with ⟨later, le, ends⟩
  refine ⟨later, le, ?_⟩
  intro moment member
  rcases ends.moments moment member with impossible | between
  · cases impossible
  · exact between

/-- Whatever a host does, its session stays well-formed, and so is every moment of what it asks for
next. Names and keys are distinct, and the scopes of every environment and every function exist.
Going out from a scope comes to older ones, always the same, and ends. A definition without a name
is never read, and an operation never looks for an operand that is not there. -/
theorem sessions_stay_well_formed {session : Session}
    (reached : session.Reached (fun _ => True) fun _ => True) :
    (∃ lineage : Lineage, session.IsWellFormed (fun _ => True) .all lineage ∧
      (∀ scope < session.store.scopes.size, ∃ outer, lineage.Line (scope :: outer)) ∧
      (∀ env : Environment, lineage.Line env.scopes → env.scopes.Pairwise (· > ·) ∧
        env.depth ≤ session.store.scopes.size ∧
        (∃ root, env.scopes.getLast? = some root ∧ lineage.parents[root]? = some none) ∧
        ∀ other : Environment, lineage.Line other.scopes → env.scope = other.scope → env = other) ∧
      ∀ task, session.Asks (fun _ => True) task → ∀ limit remaining,
        let ran := (task.traced limit remaining).runOn [] session.store
        (ran.1, ran.2.2) = (task.within limit remaining).runOn session.store ∧
        ∃ later, lineage ≤ later ∧ ∀ moment ∈ ran.2.1, ∃ between, between ≤ later ∧
          moment.IsWellFormed .all between ∧ moment.env.depth ≤ moment.store.scopes.size) ∧
    (∀ limit source exprs, Expr.parse limit source = .ok exprs →
      ¬Expr.unnamedDefinition <:+: Lexeme.scan source) ∧
    ∀ (eval : Evaluator) env keyword builtin operands, operands.length < builtin.placed →
      Builtin.run eval env keyword builtin operands =
        throw (.arity keyword builtin.expected operands.length) := by
  have fits : ∀ env expr, True → True → Allowance.all.Allows (Environment.depth env) expr :=
    fun _ _ _ _ => trivial
  refine ⟨?_, fun limit _ _ => Expr.not_unnamed_of_parse limit, ?_⟩
  · rcases reached.exists_isWellFormed fits with ⟨lineage, wellFormed⟩
    refine ⟨lineage, wellFormed, ?_, ?_, ?_⟩
    · intro scope known
      exact lineage.exists_line (wellFormed.store.size ▸ known)
    · intro env line
      refine ⟨line.pairwise, wellFormed.store.size ▸ line.depth_le, line.getLast, ?_⟩
      intro other otherLine same
      exact line.environment_unique otherLine same
    · intro task asked limit remaining ran
      refine ⟨Task.runOn_traced limit remaining task [] session.store, ?_⟩
      rcases wellFormed.moments fits asked limit remaining with ⟨later, le, moments⟩
      refine ⟨later, le, ?_⟩
      intro moment member
      rcases moments moment member with ⟨between, ended, momentWellFormed⟩
      have bounded := momentWellFormed.env.depth_le
      rw [← momentWellFormed.store.size] at bounded
      exact ⟨between, ended, momentWellFormed, bounded⟩
  · intro eval env keyword builtin operands missing
    exact Builtin.run_of_length_lt eval env keyword missing

/-- A function that defines another one and gives it back, which is called then and makes an object
that repeats a key. -/
theorem sessions_stay_well_formed_returned :
    let pair : Expr := .object none [("a", .atom (.symbol "x")), ("a", .atom (.symbol "y"))]
    let outer : Expr := .function "outer" ["x"]
      (.list [.atom (.symbol "list"), .function "inner" ["y"] pair, .atom (.symbol "inner")])
    let defined := initial.after (((Task.exprs .root [outer]).within 9 9).runOn .initial)
    let made := Expr.list [.atom (.symbol "outer"), .atom (.string "a")]
    let other := Expr.list [.atom (.symbol "car"), .list [.atom (.symbol "cdr"), made]]
    let task : Task := .exprs .root [.list [other, .atom (.string "b")]]
    let moments := ((task.traced 9 9).runOn [] defined.store).2.1
    defined.Reached (fun _ => True) (fun _ => True) ∧ defined.Asks (fun _ => True) task ∧
      (moments.head?.map fun moment => moment.env.scopes) = some [0] ∧
      moments.any (fun moment => moment.env.scopes = [2, 1, 0]) ∧
      ∃ lineage : Lineage, defined.IsWellFormed (fun _ => True) .all lineage ∧
        ∀ moment ∈ moments, moment.env.depth ≤ moment.store.scopes.size := by
  intro pair outer defined made other task moments
  have defines : initial.Asks (fun _ => True) (.exprs .root [outer]) :=
    ⟨List.mem_cons_self, fun _ _ => trivial⟩
  have reached : defined.Reached (fun _ => True) fun _ => True :=
    .perform (.start trivial) defines 9 9
  have asked : defined.Asks (fun _ => True) task := ⟨List.mem_cons_self, fun _ _ => trivial⟩
  rcases (sessions_stay_well_formed reached).1 with ⟨lineage, wellFormed, _, _, tasks⟩
  refine ⟨reached, asked, by decide +kernel, by decide +kernel, lineage, wellFormed, ?_⟩
  intro moment member
  rcases (tasks task asked 9 9).2 with ⟨later, _, all⟩
  rcases all moment member with ⟨between, _, _, bounded⟩
  exact bounded

end Session

end RuleLisp
