import RuleLisp.Program
import RuleLisp.Proofs.Eval.Depth
import RuleLisp.Proofs.Expr.Joined
import RuleLisp.Proofs.Grammar.Reader

/-! # Running a program line by line

An interactive session runs its lines one after the other, without the blanks around them, on one
evaluator and in one environment. It does the same as a program that consists of these lines, as
long as all of them can be read. A line that cannot be read stops the session where it stands, while
the program does nothing at all.
-/

namespace RuleLisp

/-! ## Blanks around a source -/

namespace Text

theorem exists_trimChars_eq (text : List Char) :
    ∃ front back, (∀ char ∈ front, isBlank char = true) ∧ (∀ char ∈ back, isBlank char = true) ∧
      text = front ++ (trimChars text ++ back) := by
  let rest := text.dropWhile isBlank
  refine ⟨text.takeWhile isBlank, (rest.reverse.takeWhile isBlank).reverse, ?_, ?_, ?_⟩
  · exact fun char member => List.mem_takeWhile_imp member
  · intro char member
    exact List.mem_takeWhile_imp (List.mem_reverse.mp member)
  · have back : rest = trimChars text ++ (rest.reverse.takeWhile isBlank).reverse := by
      change rest = (rest.reverse.dropWhile isBlank).reverse ++ _
      rw [← List.reverse_append, List.takeWhile_append_dropWhile, List.reverse_reverse]
    rw [← back]
    exact List.takeWhile_append_dropWhile.symm

/-- No blank character is a quotation mark. -/
theorem count_mark_of_blank {blanks : List Char} (blank : ∀ char ∈ blanks, isBlank char = true) :
    blanks.count '"' = 0 := by
  apply List.count_eq_zero.mpr
  intro member
  have isBlank := blank '"' member
  rw [Scan.isBlank_mark] at isBlank
  cases isBlank

end Text

theorem Token.exists_scan_trim {source : String} (balanced : IsBalanced source) :
    ∃ distance, Token.scan source = (Token.scan (Text.trim source)).map (Token.shift distance) := by
  rcases Text.exists_trimChars_eq source.toList with ⟨front, back, frontBlank, backBlank, whole⟩
  let leading := Scan.start.read front
  have leads := Scan.read_blanks (show Scan.start.isQuoted = false from rfl) frontBlank
  have between : leading.current = none := leads.2 rfl
  have nothing : leading.tokens = [] := by
    have closed : leading.closed = [] := leads.1
    simpa only [Scan.closed, between] using closed
  have unquoted : (Scan.start.read (Text.trimChars source.toList)).isQuoted = false := by
    have parity : source.toList.count '"' % 2 = 0 := balanced
    rw [whole, List.count_append, List.count_append, Text.count_mark_of_blank frontBlank,
      Text.count_mark_of_blank backBlank, Nat.zero_add, Nat.add_zero] at parity
    rw [Scan.isQuoted_read, parity]
    rfl
  refine ⟨leading.offset, ?_⟩
  have trailing := (Scan.read_blanks unquoted backBlank).1
  have read : Scan.start.read source.toList =
      leading.read (Text.trimChars source.toList ++ back) := by
    conv => lhs; rw [whole]
    exact Scan.read_append ..
  simp only [Token.scan_eq_ofChars, Token.ofChars, Text.trim, String.toList_ofList]
  rw [read, Scan.closed_read_of_current_eq_none between, nothing, List.append_nil,
    Scan.read_append, trailing, List.map_reverse]

namespace Expr

variable {limit : Nat} {source : String} (balanced : IsBalanced source)

include balanced

/-- Without the blanks around it a source has the same tokens, at other places. -/
theorem exists_readAll_trim (limit : Nat) :
    ∃ distance size, readAll limit size (Token.scan source) =
      (parse limit (Text.trim source)).mapError (ParseError.shift distance) := by
  rcases Token.exists_scan_trim balanced with ⟨distance, scanned⟩
  refine ⟨distance, distance + (Text.trim source).utf8ByteSize, ?_⟩
  rw [scanned, parse_eq_readAll]
  exact readAll_shift limit distance (Text.trim source).utf8ByteSize _

theorem parse_trim_of_ok {exprs : List Expr} (parsed : parse limit source = .ok exprs) :
    parse limit (Text.trim source) = .ok exprs := by
  rcases exists_readAll_trim balanced limit with ⟨distance, size, trimmed⟩
  rw [parse_eq_readAll] at parsed
  rw [readAll_size_of_ok limit parsed size] at trimmed
  cases read : parse limit (Text.trim source) with
  | ok others =>
      rw [read] at trimmed
      cases trimmed
      rfl
  | error error =>
      rw [read] at trimmed
      cases trimmed

theorem parse_trim_of_error {error : ParseError} (failed : parse limit source = .error error)
    (found : error.isUnexpectedEnd = false) :
    ∃ trimmed distance, parse limit (Text.trim source) = .error trimmed ∧
      trimmed.shift distance = error := by
  rcases exists_readAll_trim balanced limit with ⟨distance, size, trimmed⟩
  rw [parse_eq_readAll] at failed
  rw [readAll_size_of_error limit failed found size] at trimmed
  cases read : parse limit (Text.trim source) with
  | ok others =>
      rw [read] at trimmed
      cases trimmed
  | error other =>
      rw [read] at trimmed
      exact ⟨other, distance, rfl, (Except.error.inj trimmed).symm⟩

end Expr

/-! ## Sources that are not blank -/

theorem Scan.closed_of_next_eq_nil {scan : Scan} {char : Char}
    (nothing : (scan.next char).closed = []) :
    Text.isBlank char = true ∧ scan.closed = [] := by
  rcases scan.next_cases char with ⟨_, same⟩ | ⟨_, _, _, same⟩ | ⟨_, blank, same⟩
  · rw [same] at nothing
    simp [closed, extend] at nothing
  · rw [same] at nothing
    cases nothing
  · rw [same] at nothing
    exact ⟨blank, nothing⟩

theorem Scan.isBlank_of_closed_eq_nil (scan : Scan) {text : List Char}
    (nothing : (scan.read text).closed = []) :
    scan.closed = [] ∧ ∀ char ∈ text, Text.isBlank char = true := by
  induction text generalizing scan with
  | nil => exact ⟨nothing, fun _ member => nomatch member⟩
  | cons char rest induction =>
      rcases induction (scan.next char) nothing with ⟨none, blank⟩
      rcases closed_of_next_eq_nil none with ⟨first, closed⟩
      exact ⟨closed, List.forall_mem_cons.mpr ⟨first, blank⟩⟩

theorem Text.trim_eq_empty {source : String}
    (blank : ∀ char ∈ source.toList, isBlank char = true) : trim source = "" := by
  have nothing : trimStart source.toList = [] := List.dropWhile_eq_nil_iff.mpr blank
  rw [trim, trimChars, nothing]
  rfl

/-- A source that is not blank has an expression. -/
theorem Expr.ne_nil_of_parse {limit : Nat} {source : String} (solid : Text.trim source ≠ "")
    {exprs : List Expr} (parsed : parse limit source = .ok exprs) : exprs ≠ [] := by
  intro empty
  subst empty
  rcases parse_eq_ok_iff.mp parsed with ⟨trees, scanned, derived⟩
  cases derived
  have nothing : (Scan.start.read source.toList).closed = [] := by
    simpa [Lexeme.scan_eq, Tree.rowLexemes] using scanned
  exact solid (Text.trim_eq_empty (Scan.isBlank_of_closed_eq_nil .start nothing).2)

/-! ## Evaluators that run one source after the other -/

theorem Task.within_append (limit remaining : Nat) (env : Environment) (items : List Expr)
    {others : List Expr} (nonempty : others ≠ []) :
    (Task.exprs env (items ++ others)).within limit remaining =
      (do let _ ← (Task.exprs env items).within limit remaining
          (Task.exprs env others).within limit remaining) := by
  cases others with
  | nil => exact absurd rfl nonempty
  | cons first rest => exact List.foldlM_append

namespace Program

def runAt (limit : Nat) (env : Environment) (source : String) (depth : Nat) (store : Store) :
    Except Failure Value × Nat × Store :=
  match Expr.parse limit source with
  | .error error => (.error (.parse error), depth, store)
  | .ok exprs =>
      let ran := (Eval.Counted.exprs limit env exprs).runAt depth store
      (ran.1.mapError .run, ran.2)

/-- Runs sources in turn, each without the blanks around it, and stops at the first that fails. The
result is that of the last source, or the given one if there is none. -/
def runLinesAt (limit : Nat) (env : Environment) (last : Value) :
    List String → Nat → Store → Except Failure Value × Nat × Store
  | [], depth, store => (.ok last, depth, store)
  | source :: rest, depth, store =>
      match runAt limit env (Text.trim source) depth store with
      | (.ok value, depth, after) => runLinesAt limit env value rest depth after
      | (.error failure, depth, after) => (.error failure, depth, after)

variable {limit : Nat} {env : Environment}

theorem runAt_of_ok {source : String} {exprs : List Expr}
    (parsed : Expr.parse limit source = .ok exprs) (depth : Nat) (store : Store) :
    runAt limit env source depth store =
      let ran := ((Task.exprs env exprs).within limit (limit - depth)).runOn store
      (ran.1.mapError .run, depth, ran.2) := by
  rw [runAt, parsed]
  dsimp only
  rw [show Eval.Counted.exprs limit env exprs = (Task.exprs env exprs).counted limit from rfl,
    Task.runAt_counted]

theorem runAt_of_error {source : String} {error : ParseError}
    (failed : Expr.parse limit source = .error error) (depth : Nat) (store : Store) :
    runAt limit env source depth store = (.error (.parse error), depth, store) := by
  rw [runAt, failed]

theorem run_of_ok {source : String} {exprs : List Expr}
    (parsed : Expr.parse limit source = .ok exprs) (store : Store) :
    (run limit env source).run store =
      let ran := (Eval.exprs limit env exprs).runOn store
      (ran.1.mapError .run, ran.2) := by
  rw [run, parsed]
  dsimp only
  rw [StateT.run_bind, Run.runOn]
  rcases (ExceptT.run (Eval.exprs limit env exprs)).run store with ⟨error | value, after⟩ <;> rfl

theorem run_of_error {source : String} {error : ParseError}
    (failed : Expr.parse limit source = .error error) (store : Store) :
    (run limit env source).run store = (.error (.parse error), store) := by
  rw [run, failed]
  rfl

/-- A new evaluator does what the program does. -/
theorem runAt_zero (limit : Nat) (env : Environment) (source : String) (store : Store) :
    runAt limit env source 0 store =
      let ran := (run limit env source).run store
      (ran.1, 0, ran.2) := by
  cases parsed : Expr.parse limit source with
  | error error => rw [runAt_of_error parsed, run_of_error parsed]
  | ok exprs =>
      rw [runAt_of_ok parsed, run_of_ok parsed]
      rfl

/-! ## Joined sources -/

theorem runAt_joined {front rest : String} (balanced : IsBalanced front) {exprs others : List Expr}
    (parsed : Expr.parse limit front = .ok exprs) (parsedRest : Expr.parse limit rest = .ok others)
    (nonempty : others ≠ []) (depth : Nat) (store : Store) :
    runAt limit env (front ++ "\n" ++ rest) depth store =
      match runAt limit env front depth store with
      | (.ok _, depth, after) => runAt limit env rest depth after
      | (.error failure, depth, after) => (.error failure, depth, after) := by
  have joined : Expr.parse limit (front ++ "\n" ++ rest) = .ok (exprs ++ others) := by
    rw [Expr.parse_line_of_ok balanced parsed, parsedRest]
    rfl
  rw [runAt_of_ok joined, runAt_of_ok parsed, Task.within_append _ _ _ _ nonempty, Run.runOn_bind]
  dsimp only
  rcases ((Task.exprs env exprs).within limit (limit - depth)).runOn store with
    ⟨error | value, after⟩
  · rfl
  · exact (runAt_of_ok parsedRest depth after).symm

theorem runLinesAt_eq_runAt (env : Environment) {sources : List String}
    (balanced : ∀ source ∈ sources, IsBalanced source)
    (solid : ∀ source ∈ sources, Text.trim source ≠ "")
    (parsed : ∀ source ∈ sources, ∃ exprs, Expr.parse limit source = .ok exprs)
    (nonempty : sources ≠ []) :
    ∃ exprs, exprs ≠ [] ∧ Expr.parse limit ("\n".intercalate sources) = .ok exprs ∧
      ∀ last depth store, runLinesAt limit env last sources depth store =
        runAt limit env ("\n".intercalate sources) depth store := by
  induction sources with
  | nil => exact absurd rfl nonempty
  | cons source rest induction =>
      rw [List.forall_mem_cons] at balanced solid parsed
      rcases parsed.1 with ⟨exprs, parsedFirst⟩
      have nonemptyFirst := Expr.ne_nil_of_parse solid.1 parsedFirst
      have trimmed := Expr.parse_trim_of_ok balanced.1 parsedFirst
      have same (depth : Nat) (store : Store) : runAt limit env (Text.trim source) depth store =
          runAt limit env source depth store := by
        rw [runAt_of_ok trimmed, runAt_of_ok parsedFirst]
      by_cases alone : rest = []
      · subst alone
        refine ⟨exprs, nonemptyFirst, by rw [String.intercalate_singleton, parsedFirst], ?_⟩
        intro last depth store
        rw [runLinesAt, same, String.intercalate_singleton]
        rcases runAt limit env source depth store with ⟨failure | value, depth, after⟩ <;> rfl
      · rcases induction balanced.2 solid.2 parsed.2 alone with
          ⟨others, nonemptyRest, parsedRest, agree⟩
        rw [String.intercalate_cons_of_ne_nil alone]
        refine ⟨exprs ++ others, List.append_ne_nil_of_left_ne_nil nonemptyFirst others, ?_, ?_⟩
        · rw [Expr.parse_line_of_ok balanced.1 parsedFirst, parsedRest]
          rfl
        · intro last depth store
          rw [runLinesAt, same, runAt_joined balanced.1 parsedFirst parsedRest nonemptyRest]
          simp only [agree]

theorem runLinesAt_append (last : Value) (sources others : List String) (depth : Nat)
    (store : Store) :
    runLinesAt limit env last (sources ++ others) depth store =
      match runLinesAt limit env last sources depth store with
      | (.ok value, depth, after) => runLinesAt limit env value others depth after
      | (.error failure, depth, after) => (.error failure, depth, after) := by
  induction sources generalizing last depth store with
  | nil => rfl
  | cons source rest induction =>
      rw [List.cons_append, runLinesAt, runLinesAt]
      rcases runAt limit env (Text.trim source) depth store with ⟨failure | value, depth, after⟩
      · rfl
      · exact induction value depth after

theorem runLinesAt_of_error {source : String} (balanced : IsBalanced source) {error : ParseError}
    (failed : Expr.parse limit source = .error error) (found : error.isUnexpectedEnd = false)
    (before after : List String) (last : Value) (depth : Nat) (store : Store) :
    ∃ lineError : ParseError, lineError.code = error.code ∧ lineError.message = error.message ∧
      runLinesAt limit env last (before ++ source :: after) depth store =
        let early := runLinesAt limit env last before depth store
        (early.1.bind fun _ => .error (.parse lineError), early.2) := by
  rcases Expr.parse_trim_of_error balanced failed found with
    ⟨lineError, distance, failedLine, shifted⟩
  refine ⟨lineError, ?_, ?_, ?_⟩
  · rw [← shifted, ParseError.code_shift]
  · rw [← shifted, ParseError.message_shift]
  · rw [runLinesAt_append]
    rcases runLinesAt limit env last before depth store with ⟨failure | value, reached, middle⟩
    · rfl
    · dsimp only
      rw [runLinesAt, runAt_of_error failedLine]
      rfl

/-- The first source that cannot be read is what a joined program fails with. -/
theorem parse_joined_of_error {before after : List String} {source : String}
    (balanced : ∀ line ∈ before ++ source :: after, IsBalanced line)
    (parsed : ∀ line ∈ before, ∃ exprs, Expr.parse limit line = .ok exprs) {error : ParseError}
    (failed : Expr.parse limit source = .error error) (found : error.isUnexpectedEnd = false) :
    ∃ joinedError : ParseError,
      joinedError.code = error.code ∧ joinedError.message = error.message ∧
        Expr.parse limit ("\n".intercalate (before ++ source :: after)) = .error joinedError := by
  induction before with
  | nil =>
      refine ⟨error, rfl, rfl, ?_⟩
      rw [List.nil_append] at balanced ⊢
      cases after with
      | nil => rw [String.intercalate_singleton, failed]
      | cons next rest =>
          rw [String.intercalate_cons_cons]
          exact Expr.parse_line_of_error (balanced source (.head _)) failed found _
  | cons line before induction =>
      rw [List.cons_append, List.forall_mem_cons] at balanced
      rw [List.forall_mem_cons] at parsed
      rcases parsed.1 with ⟨exprs, parsedLine⟩
      rcases induction balanced.2 parsed.2 with ⟨joinedError, code, message, failedRest⟩
      refine ⟨joinedError.shift (line.utf8ByteSize + 1), ?_, ?_, ?_⟩
      · rw [ParseError.code_shift, code]
      · rw [ParseError.message_shift, message]
      · rw [List.cons_append, String.intercalate_cons_of_ne_nil (by simp),
          Expr.parse_line_of_ok balanced.1 parsedLine, failedRest]
        rfl

theorem runAt_empty (limit : Nat) (env : Environment) (depth : Nat) (store : Store) :
    runAt limit env "" depth store = (.ok .null, depth, store) := by
  have nothing : Expr.parse limit "" = .ok [] := by
    rw [Expr.parse_eq_readAll, Token.scan_eq_ofChars]
    rfl
  exact runAt_of_ok nothing depth store

/-- Running sources one after the other is running them as one program: the same result, the same
bindings and the same printed lines. Where a source cannot be read, and more text would not help,
the sources before it have run, while the one program fails in the same way and has done nothing. On
a new evaluator a line or a whole program is run as `Program.run` does. -/
theorem lines_run_as_one_program (limit depth : Nat) (env : Environment) (store : Store)
    {sources : List String} (balanced : ∀ source ∈ sources, IsBalanced source)
    (solid : ∀ source ∈ sources, Text.trim source ≠ "") :
    let lines := runLinesAt limit env .null sources depth store
    let joined := "\n".intercalate sources
    ((∀ source ∈ sources, ∃ exprs, Expr.parse limit source = .ok exprs) →
      lines = runAt limit env joined depth store) ∧
    (∀ before source after error, sources = before ++ source :: after →
      (∀ line ∈ before, ∃ exprs, Expr.parse limit line = .ok exprs) →
      Expr.parse limit source = .error error → error.isUnexpectedEnd = false →
      (∃ lineError : ParseError, lineError.code = error.code ∧ lineError.message = error.message ∧
        lines =
          let early := runLinesAt limit env .null before depth store
          (early.1.bind fun _ => .error (.parse lineError), early.2)) ∧
      ∃ joinedError : ParseError,
        joinedError.code = error.code ∧ joinedError.message = error.message ∧
          runAt limit env joined depth store = (.error (.parse joinedError), depth, store)) ∧
    ∀ source store, runAt limit env source 0 store =
      let ran := (run limit env source).run store
      (ran.1, 0, ran.2) := by
  intro lines joined
  refine ⟨?_, ?_, runAt_zero limit env⟩
  · intro parsed
    by_cases empty : sources = []
    · subst empty
      exact (runAt_empty limit env depth store).symm
    · rcases runLinesAt_eq_runAt env balanced solid parsed empty with ⟨_, _, _, agree⟩
      exact agree .null depth store
  · intro before source after error split parsed failed found
    subst split
    have balancedSource : IsBalanced source := balanced source (by simp)
    refine ⟨runLinesAt_of_error balancedSource failed found before after .null depth store, ?_⟩
    rcases parse_joined_of_error balanced parsed failed found with
      ⟨joinedError, code, message, failedJoined⟩
    exact ⟨joinedError, code, message, runAt_of_error failedJoined depth store⟩

/-- The second line uses what the first binds, and a bracket stands between quotation marks. Where a
line has a bracket too many, only the run line by line has bound the name. -/
theorem lines_run_as_one_program_greeting :
    let binding := "(set name \"ada)\")"
    let greeting := [binding, "  (print (list \"hello\" name))  "]
    let broken := [binding, "(print name))", "(set name"]
    (∀ source ∈ greeting ++ broken, IsBalanced source ∧ Text.trim source ≠ "") ∧
      (∀ source ∈ greeting, ∃ exprs, Expr.parse 8 source = .ok exprs) ∧
      runLinesAt 8 .root .null greeting 0 .initial =
        runAt 8 .root ("\n".intercalate greeting) 0 .initial ∧
      (∃ lineError : ParseError, lineError.code = "E0102" ∧
        runLinesAt 8 .root .null broken 0 .initial =
          let early := runLinesAt 8 .root .null [binding] 0 .initial
          (early.1.bind fun _ => .error (.parse lineError), early.2)) ∧
      ∃ joinedError : ParseError, joinedError.code = "E0102" ∧
        runAt 8 .root ("\n".intercalate broken) 0 .initial =
          (.error (.parse joinedError), 0, .initial) := by
  intro binding greeting broken
  have sound : ∀ source ∈ greeting ++ broken, IsBalanced source ∧ Text.trim source ≠ "" := by
    decide
  have bound : Expr.parse 8 binding =
      .ok [.list [.atom (.symbol "set"), .atom (.symbol "name"), .atom (.string "ada)")]] := by
    rw [Expr.parse_eq_readAll, Token.scan_eq_ofChars]
    unfold binding
    rfl
  have printed : Expr.parse 8 "  (print (list \"hello\" name))  " =
      .ok [.list [.atom (.symbol "print"),
        .list [.atom (.symbol "list"), .atom (.string "hello"), .atom (.symbol "name")]]] := by
    rw [Expr.parse_eq_readAll, Token.scan_eq_ofChars]
    rfl
  have parsed : ∀ source ∈ greeting, ∃ exprs, Expr.parse 8 source = .ok exprs :=
    List.forall_mem_cons.mpr ⟨⟨_, bound⟩, List.forall_mem_singleton.mpr ⟨_, printed⟩⟩
  have failed : Expr.parse 8 "(print name))" = .error (.unexpectedClosing ')' ⟨12, 13⟩) := by
    rw [Expr.parse_eq_readAll, Token.scan_eq_ofChars]
    rfl
  have balanced (source : String) (member : source ∈ greeting ++ broken) := (sound source member).1
  have solid (source : String) (member : source ∈ greeting ++ broken) := (sound source member).2
  have whole := lines_run_as_one_program 8 0 .root .initial
    (fun source member => balanced source (List.mem_append_left broken member))
    (fun source member => solid source (List.mem_append_left broken member))
  have stopped := lines_run_as_one_program 8 0 .root .initial
    (fun source member => balanced source (List.mem_append_right greeting member))
    (fun source member => solid source (List.mem_append_right greeting member))
  have readable : ∀ line ∈ [binding], ∃ exprs, Expr.parse 8 line = .ok exprs :=
    List.forall_mem_singleton.mpr ⟨_, bound⟩
  rcases stopped.2.1 [binding] _ _ _ rfl readable failed rfl with
    ⟨⟨lineError, code, _, lines⟩, joinedError, joinedCode, _, joined⟩
  exact ⟨sound, parsed, whole.1 parsed, ⟨lineError, code, lines⟩, joinedError, joinedCode, joined⟩

end Program

end RuleLisp
