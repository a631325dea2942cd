import RuleLisp.Expr.TokenReader

/-! # Reading one expression after the other

A reader that goes into brackets and comes out of them again reads what one pass over its tokens
reads. The pass remembers nothing but the tokens that are left, so neither does the reader: an error
on the way changes no later expression.
-/

namespace RuleLisp

namespace TokenReader

variable {reader before between after : TokenReader}

/-! ## The tokens that are left -/

theorem length_unread (reader : TokenReader) :
    reader.unread.length = reader.tokens.size - reader.place := by
  simp [unread]

theorem place_lt_advance (remains : reader.place < reader.tokens.size) :
    reader.place < reader.advance.place := by
  rw [advance, dif_pos remains]
  exact Nat.lt_succ_self _

structure Precedes (before after : TokenReader) : Prop where
  tokens : after.tokens = before.tokens
  size : after.size = before.size
  depth : after.depth = before.depth
  limit : after.limit = before.limit
  place : before.place ≤ after.place

namespace Precedes

theorem refl (reader : TokenReader) : reader.Precedes reader :=
  ⟨rfl, rfl, rfl, rfl, Nat.le_refl _⟩

theorem trans (first : before.Precedes between) (second : between.Precedes after) :
    before.Precedes after where
  tokens := second.tokens.trans first.tokens
  size := second.size.trans first.size
  depth := second.depth.trans first.depth
  limit := second.limit.trans first.limit
  place := Nat.le_trans first.place second.place

theorem length_unread_le (precedes : before.Precedes after) :
    after.unread.length ≤ before.unread.length := by
  have place := precedes.place
  rw [length_unread, length_unread, precedes.tokens]
  omega

end Precedes

theorem precedes_advance (reader : TokenReader) : reader.Precedes reader.advance := by
  unfold advance
  split
  · exact ⟨rfl, rfl, rfl, rfl, Nat.le_succ _⟩
  · exact .refl reader

end TokenReader

/-! ## Reading in one pass -/

namespace ReadStep

def Takes : ReadStep → Prop
  | wrong _ unread => unread = false
  | _ => True

theorem takes_fill (expr : Expr) (holes : List Hole) : (fill expr holes).Takes := by
  unfold fill
  split
  · trivial
  · trivial
  · unfold sign
    split
    · split <;> trivial
    · trivial
  · trivial
  · trivial
  · split <;> trivial
  · trivial

theorem takes_start (limit : Nat) (holes : List Hole) (token : Token) :
    (start limit holes token).Takes := by
  unfold start
  split
  · split
    · trivial
    · split <;> trivial
  · trivial
  · split
    · exact takes_fill _ _
    · trivial

end ReadStep

namespace TokenReader

/-- Reads the remaining tokens in one pass, inside the given brackets. -/
def readOn (reader : TokenReader) (opened : Open) : Except ParseError Expr × List Token :=
  Expr.readOn reader.limit reader.size opened reader.unread

def resume (reader : TokenReader) : ReadStep → Except ParseError Expr × List Token
  | .more inside outer => reader.readOn (.bracket inside outer)
  | .done expr => (.ok expr, reader.unread)
  | .wrong error _ => (.error error, reader.unread)

def settle (reader : TokenReader) (holes : List Hole) :
    Except ParseError Expr → Except ParseError Expr × List Token
  | .ok expr => reader.resume (.fill expr holes)
  | .error error => (.error error, reader.unread)

variable {reader : TokenReader} {token : Token} {rest : List Token}

theorem readOn_eq_resume (unread : reader.unread = token :: rest) {opened : Open} {step : ReadStep}
    (same : ReadStep.next reader.limit opened token = step) (takes : step.Takes) :
    reader.readOn opened = reader.advance.resume step := by
  have advanced := precedes_advance reader
  have left : reader.advance.unread = rest := by rw [unread_advance, unread, List.tail_cons]
  rw [readOn, unread, Expr.readOn, same]
  cases step with
  | more inside outer => rw [resume, readOn, left, advanced.limit, advanced.size]
  | done expr => rw [resume, left]
  | wrong error given =>
      cases takes
      rw [resume, left]
      rfl

theorem readOn_of_wrong (unread : reader.unread = token :: rest) {opened : Open}
    {error : ParseError} (same : ReadStep.next reader.limit opened token = .wrong error true) :
    reader.readOn opened = (.error error, reader.unread) := by
  rw [readOn, unread, Expr.readOn, same]
  rfl

end TokenReader

/-! ## Reading inside a bracket -/

namespace Reading

variable {reader : TokenReader} {outer : List Hole} {token : Token} {rest : List Token}

theorem next?_of_nil (unread : reader.unread = []) : reader.next? = none := by
  rw [reader.next?_eq_head?, unread, List.head?_nil]

theorem next?_of_cons (unread : reader.unread = token :: rest) : reader.next? = some token := by
  rw [reader.next?_eq_head?, unread, List.head?_cons]

theorem expression_of_nil (unread : reader.unread = []) :
    expression reader =
      fail reader.advance (.unexpectedEnd Shape.round.closer (.point reader.size)) := by
  rw [expression]
  split
  · next upcomes => cases upcomes.symm.trans (next?_of_nil unread)
  · rfl

theorem expression_of_cons (unread : reader.unread = token :: rest) :
    expression reader = expressionFrom token reader.advance := by
  rw [expression]
  split
  · next upcomes =>
    cases upcomes.symm.trans (next?_of_cons unread)
    rfl
  · next ended => cases ended.symm.trans (next?_of_cons unread)

/-- From where the reader is left, one pass over the remaining tokens gives the answer. -/
structure Follows (reading : Reading reader) (holes : List Hole)
    (answer : Except ParseError Expr × List Token) : Prop where
  precedes : reader.Precedes reading.after
  settles : answer = reading.after.settle holes reading.outcome

def Agrees (reader : TokenReader) : Prop :=
  ∀ token holes, holes.length = reader.depth →
    Follows (expressionFrom token reader) holes (reader.resume (.start reader.limit holes token))

/-- The reader is inside a bracket and the given holes, and expressions that start later are read as
in one pass. -/
structure IsReady (reader : TokenReader) (outer : List Hole) : Prop where
  depth : outer.length + 1 = reader.depth
  agrees : ∀ later : TokenReader, later.unread.length < reader.unread.length → Agrees later

theorem IsReady.of_precedes (ready : IsReady reader outer) {after : TokenReader}
    (precedes : reader.Precedes after) : IsReady after outer where
  depth := ready.depth.trans precedes.depth.symm
  agrees later fewer := ready.agrees later (Nat.lt_of_lt_of_le fewer precedes.length_unread_le)

theorem follows_fail (error : ParseError) :
    Follows (fail reader error) outer (.error error, reader.unread) :=
  ⟨.refl reader, rfl⟩

theorem follows_upcoming (inside : Inside)
    {next : (token : Token) → reader.advance.unread.length < reader.unread.length →
      Reading reader}
    (follows : ∀ token rest fewer, reader.unread = token :: rest →
      Follows (next token fewer) outer (reader.readOn (.bracket inside outer))) :
    Follows (upcoming inside.shape reader next) outer
      (reader.readOn (.bracket inside outer)) := by
  unfold upcoming
  split
  · next token upcomes =>
    rw [reader.next?_eq_head?, List.head?_eq_some_iff] at upcomes
    obtain ⟨rest, unread⟩ := upcomes
    exact follows token rest _ unread
  · next ended =>
    rw [reader.next?_eq_head?, List.head?_eq_none_iff] at ended
    refine ⟨.refl reader, ?_⟩
    rw [TokenReader.readOn, fail, TokenReader.settle, ended]
    rfl

/-! ### One rule for each effect of a token -/

section

variable (unread : reader.unread = token :: rest) {opened : Open}

include unread

theorem follows_complete {expr : Expr}
    (step : ReadStep.next reader.limit opened token = .fill expr outer) :
    Follows (complete reader expr) outer (reader.readOn opened) := by
  rw [TokenReader.readOn_eq_resume unread step (ReadStep.takes_fill expr outer)]
  exact ⟨reader.precedes_advance, rfl⟩

theorem follows_skip (following : Inside) {reading : Reading reader.advance}
    (step : ReadStep.next reader.limit opened token = .more following outer)
    (follows : Follows reading outer (reader.advance.readOn (.bracket following outer))) :
    Follows (skip reading) outer (reader.readOn opened) := by
  rw [TokenReader.readOn_eq_resume unread step trivial]
  exact ⟨reader.precedes_advance.trans follows.precedes, follows.settles⟩

theorem follows_wrong {error : ParseError}
    (step : ReadStep.next reader.limit opened token = .wrong error true) :
    Follows (fail reader error) outer (reader.readOn opened) := by
  rw [TokenReader.readOn_of_wrong unread step]
  exact follows_fail error

/-- An expression that fills a hole is read first, and the rule goes on from there. -/
theorem follows_expression (ready : IsReady reader outer) (hole : Hole)
    (step : ReadStep.next reader.limit opened token = .start reader.limit (hole :: outer) token)
    {next : (expr : Expr) → (after : TokenReader) →
      after.unread.length ≤ reader.advance.unread.length → Reading after}
    (follows : ∀ expr after onward, IsReady after outer →
      after.unread.length < reader.unread.length →
      Follows (next expr after onward) outer (after.settle (hole :: outer) (.ok expr))) :
    Follows (andThen (expression reader) next) outer (reader.readOn opened) := by
  have advanced := reader.precedes_advance
  have fewer := TokenReader.length_unread_advance_lt (next?_of_cons unread)
  have first := ready.agrees reader.advance fewer token (hole :: outer)
    (ready.depth.trans advanced.depth.symm)
  rw [advanced.limit, ← expression_of_cons unread] at first
  have precedes := advanced.trans first.precedes
  rw [TokenReader.readOn_eq_resume unread step (ReadStep.takes_start _ _ _), first.settles,
    andThen]
  cases (expression reader).outcome with
  | error error => exact ⟨precedes, rfl⟩
  | ok expr =>
      have rest := follows expr _ (expression reader).onward (ready.of_precedes precedes)
        (Nat.lt_of_le_of_lt first.precedes.length_unread_le fewer)
      exact ⟨precedes.trans rest.precedes, rest.settles⟩

end

/-! ## Lists and definitions -/

theorem follows_items (ready : IsReady reader outer) (opened : Span) {earlier : List Expr}
    (plain : earlier = [] → ∀ token ∈ reader.next?, token.lexeme ≠ .word Expr.functionWord) :
    Follows (items earlier reader) outer
      (reader.readOn (.bracket (.list opened earlier) outer)) := by
  induction count : reader.unread.length using Nat.strongRecOn generalizing reader earlier with
  | ind count induction =>
    rw [items]
    apply follows_upcoming (.list opened earlier)
    intro token rest _ unread
    by_cases closing : token.lexeme = .closing .round
    · rw [if_pos closing]
      apply follows_complete unread
      simp [ReadStep.next, ReadStep.nextInside, closing]
    · have notDefinition : ¬(earlier.isEmpty ∧ token.lexeme = .word Expr.functionWord) := by
        rintro ⟨first, word⟩
        exact plain (List.isEmpty_iff.mp first) token (next?_of_cons unread) word
      rw [if_neg closing]
      apply follows_expression unread ready (.item opened earlier)
      · rw [ReadStep.next, ReadStep.nextInside, if_neg closing, if_neg notDefinition]
      · intro item after _ ready fewer
        exact induction _ (count ▸ fewer) ready (fun empty => by cases empty) rfl

theorem follows_conclusion (name : String) (params : List String) (body : Expr) :
    Follows (conclusion name params body reader) outer
      (reader.readOn (.bracket (.defined name params body) outer)) := by
  apply follows_upcoming (.defined name params body)
  intro token rest _ unread
  by_cases closing : token.lexeme = .closing .round
  · rw [if_pos closing]
    apply follows_complete unread
    simp [ReadStep.next, ReadStep.nextInside, closing]
  · rw [if_neg closing]
    apply follows_wrong unread
    simp [ReadStep.next, ReadStep.nextInside, closing]

theorem follows_body (ready : IsReady reader outer) (opened : Span) (name : String)
    (params : List String) :
    Follows (body opened name params reader) outer
      (reader.readOn (.bracket (.signed opened name params) outer)) := by
  rw [body]
  apply follows_upcoming (.signed opened name params)
  intro token rest _ unread
  by_cases closing : token.lexeme = .closing .round
  · rw [if_pos closing]
    apply follows_wrong unread
    simp [ReadStep.next, ReadStep.nextInside, closing]
  · rw [if_neg closing]
    apply follows_expression unread ready (.body name params)
    · simp [ReadStep.next, ReadStep.nextInside, closing]
    · intro body after _ _ _
      exact follows_conclusion name params body

theorem sign_eq (opened bracket : Span) (outer : List Hole) (expr : Expr) :
    ReadStep.sign opened bracket outer expr =
      match signature bracket expr with
      | .ok (name, params) => .more (.signed opened name params) outer
      | .error error => .wrong error false := by
  cases expr with
  | list items =>
      simp only [ReadStep.sign, signature]
      rcases ReadStep.signatureNames items with reason | _ | ⟨name, params⟩ <;> rfl
  | atom | object | function => rfl

theorem follows_definition (ready : IsReady reader outer) (opened : Span) :
    Follows (definition opened reader) outer
      (reader.readOn (.bracket (.definition opened) outer)) := by
  rw [definition]
  apply follows_upcoming (.definition opened)
  intro token rest _ unread
  by_cases opening : token.lexeme = .opening .round
  · rw [if_pos opening]
    apply follows_expression unread ready (.signature opened token.span)
    · simp [ReadStep.next, ReadStep.nextInside, opening]
    · intro expr after _ ready _
      rw [TokenReader.settle, ReadStep.fill, sign_eq]
      rcases signature token.span expr with error | ⟨name, params⟩
      · exact follows_fail error
      · exact follows_body ready opened name params
  · rw [if_neg opening]
    apply follows_wrong unread
    simp [ReadStep.next, ReadStep.nextInside, opening]

theorem follows_list (ready : IsReady reader outer) (opened : Span) :
    Follows (list opened reader) outer (reader.readOn (.bracket (.list opened []) outer)) := by
  rw [list]
  apply follows_upcoming (.list opened [])
  intro token rest _ unread
  by_cases word : token.lexeme = .word Expr.functionWord
  · rw [if_pos word]
    apply follows_skip unread (.definition opened)
    · simp [ReadStep.next, ReadStep.nextInside, word]
    · exact follows_definition (ready.of_precedes reader.precedes_advance) opened
  · rw [if_neg word]
    apply follows_items ready
    intro _ first upcomes
    rw [next?_of_cons unread, Option.mem_some_iff] at upcomes
    exact upcomes ▸ word

/-! ## Object literals -/

theorem follows_value (ready : IsReady reader outer) (spread : Option Expr) (earlier : Table Expr)
    (key : String)
    {next : (value : Expr) → (after : TokenReader) →
      after.unread.length ≤ reader.advance.unread.length → Reading after}
    (follows : ∀ value after onward, IsReady after outer →
      after.unread.length < reader.unread.length → Follows (next value after onward) outer
        (after.readOn (.bracket (.properties spread (Table.insert key value earlier)) outer))) :
    Follows (upcoming .curly reader fun _ _ => andThen (expression reader) next) outer
      (reader.readOn (.bracket (.keyed spread earlier key) outer)) := by
  apply follows_upcoming (.keyed spread earlier key)
  intro token rest _ unread
  apply follows_expression unread ready (.value spread earlier key) rfl
  exact follows

theorem follows_properties (ready : IsReady reader outer) (spread : Option Expr)
    (earlier : Table Expr) :
    Follows (properties spread earlier reader) outer
      (reader.readOn (.bracket (.properties spread earlier) outer)) := by
  induction count : reader.unread.length using Nat.strongRecOn generalizing reader earlier with
  | ind count induction =>
    rw [properties]
    apply follows_upcoming (.properties spread earlier)
    intro token rest _ unread
    by_cases closing : token.lexeme = .closing .curly
    · rw [if_pos closing]
      apply follows_complete unread
      simp [ReadStep.next, ReadStep.nextInside, ReadStep.property, closing]
    · rw [if_neg closing]
      apply follows_expression unread ready (.key spread earlier token.span)
      · simp [ReadStep.next, ReadStep.nextInside, ReadStep.property, closing]
      · intro key between _ ready fewer
        rw [TokenReader.settle, ReadStep.fill]
        cases key.text? with
        | none => exact follows_fail _
        | some name =>
            apply follows_value ready
            intro value after _ ready fewest
            exact induction _ (count ▸ Nat.lt_trans fewest fewer) ready _ rfl

theorem follows_object (ready : IsReady reader outer) :
    Follows (object reader) outer (reader.readOn (.bracket .object outer)) := by
  rw [object]
  apply follows_upcoming .object
  intro token rest _ unread
  by_cases word : token.lexeme = .word Expr.spreadWord
  · rw [if_pos word]
    apply follows_skip unread .spreading
    · simp [ReadStep.next, ReadStep.nextInside, word]
    · apply follows_upcoming .spreading
      intro token rest _ unread
      apply follows_expression unread (ready.of_precedes reader.precedes_advance) .spread rfl
      intro base after _ ready _
      exact follows_properties ready (some base) []
  · have same : reader.readOn (.bracket .object outer) =
        reader.readOn (.bracket (.properties none []) outer) := by
      simp only [TokenReader.readOn, unread, Expr.readOn, ReadStep.next, ReadStep.nextInside,
        if_neg word]
    rw [if_neg word, same]
    exact follows_properties ready none []

/-! ## Expressions -/

/-- What is inside a bracket is read one level deeper, and the reader comes back from there. -/
theorem follows_leave {reading : Reading reader.deeper} {inside : Inside}
    (follows : Follows reading outer (reader.deeper.readOn (.bracket inside outer))) :
    Follows (leave reading) outer (reader.readOn (.bracket inside outer)) := by
  obtain ⟨precedes, settles⟩ := follows
  refine ⟨⟨precedes.tokens, precedes.size, congrArg (· - 1) precedes.depth, precedes.limit,
    precedes.place⟩, settles.trans ?_⟩
  rw [leave]
  cases reading.outcome <;> rfl

theorem agrees (reader : TokenReader) : Agrees reader := by
  -- By the number of remaining tokens: what starts inside a bracket takes a token of them first.
  induction count : reader.unread.length using Nat.strongRecOn generalizing reader with
  | ind count induction =>
    intro token holes depth
    have ready : IsReady reader.deeper holes :=
      ⟨congrArg (· + 1) depth, fun later fewer => induction _ (count ▸ fewer) later rfl⟩
    rw [expressionFrom, ReadStep.start]
    cases token.lexeme with
    | opening shape =>
        dsimp only
        rw [depth]
        by_cases full : reader.limit ≤ reader.depth
        · rw [if_pos full, if_pos full]
          exact follows_fail _
        · rw [if_neg full, if_neg full]
          cases shape with
          | round =>
              apply follows_leave
              rw [contents]
              exact follows_list ready token.span
          | curly =>
              apply follows_leave
              rw [contents]
              exact follows_object ready
    | closing shape => exact follows_fail _
    | word text =>
        dsimp only
        cases Atom.ofWord? text with
        | some atom => exact ⟨.refl reader, rfl⟩
        | none => exact follows_fail _

end Reading

/-! ## One expression after the other -/

namespace TokenReader

/-- Outside of all brackets, an expression is read as in one pass over the tokens that are left, and
at least one of them is taken. -/
theorem read_follows (reader : TokenReader) (top : reader.depth = 0) :
    reader.advance.Precedes reader.read.2 ∧
      Expr.readFirst reader.limit reader.size reader.unread =
        (reader.read.1, reader.read.2.unread) := by
  rw [read]
  cases unread : reader.unread with
  | nil =>
      rw [Reading.expression_of_nil unread]
      refine ⟨.refl _, ?_⟩
      rw [Reading.fail, unread_advance, unread]
      rfl
  | cons token rest =>
      have advanced := reader.precedes_advance
      obtain ⟨precedes, settles⟩ :=
        Reading.agrees reader.advance token [] (top.symm.trans advanced.depth.symm)
      rw [Reading.expression_of_cons unread]
      refine ⟨precedes, ?_⟩
      have step : ReadStep.next reader.limit .nothing token = .start reader.limit [] token := rfl
      have resumed := readOn_eq_resume unread step (ReadStep.takes_start _ _ _)
      rw [advanced.limit] at settles
      rw [readOn, unread, settles] at resumed
      rw [Expr.readFirst, resumed]
      cases (Reading.expressionFrom token reader.advance).outcome <;> rfl

theorem readTimes_spec (reader : TokenReader) (top : reader.depth = 0) (count : Nat) :
    (reader.readTimes count).1.length = count ∧ reader.Precedes (reader.readTimes count).2 ∧
      (reader.readTimes count).2.unread.length ≤ reader.unread.length - count := by
  induction count generalizing reader with
  | zero => exact ⟨rfl, .refl reader, Nat.le_refl _⟩
  | succ count induction =>
      obtain ⟨precedes, _⟩ := read_follows reader top
      have onward := reader.precedes_advance.trans precedes
      obtain ⟨length, further, left⟩ := induction reader.read.2 (onward.depth.trans top)
      have fewer := precedes.length_unread_le
      rw [unread_advance, List.length_tail] at fewer
      refine ⟨congrArg (· + 1) length, onward.trans further, ?_⟩
      exact Nat.le_trans left (by omega)

theorem unread_ofTokens (tokens : List Token) (size limit : Nat) :
    (ofTokens tokens size limit).unread = tokens :=
  rfl

theorem Precedes.unread_eq {tokens : List Token} {size limit : Nat} {reader : TokenReader}
    (precedes : (ofTokens tokens size limit).Precedes reader) :
    reader.unread = tokens.drop reader.place := by
  rw [unread, precedes.tokens]
  rfl

/-- After any number of expressions, with or without errors, the next one is read as by a new
reader of the remaining tokens. It takes at least one of them, and the reader comes out of all the
brackets that it has gone into. -/
theorem errors_leave_nothing_behind (tokens : List Token) (size limit count : Nat) :
    ∃ outcomes reader, (ofTokens tokens size limit).readTimes count = (outcomes, reader) ∧
      outcomes.length = count ∧ (tokens.length ≤ count → reader.unread = []) ∧
      ∃ outcome after, reader.read = (outcome, after) ∧ after.depth = reader.depth ∧
        reader.place ≤ after.place ∧
        (reader.place < tokens.length → reader.place < after.place) ∧
        ∃ last, (ofTokens (tokens.drop reader.place) size limit).read = (outcome, last) ∧
          last.unread = tokens.drop after.place := by
  obtain ⟨length, precedes, left⟩ := readTimes_spec (ofTokens tokens size limit) rfl count
  refine ⟨_, _, rfl, length, fun enough => ?_, ?_⟩
  · apply List.eq_nil_of_length_eq_zero
    rw [unread_ofTokens] at left
    omega
  generalize ((ofTokens tokens size limit).readTimes count).2 = reader at precedes
  obtain ⟨onward, passed⟩ := read_follows reader precedes.depth
  obtain ⟨_, passedNew⟩ := read_follows (ofTokens (tokens.drop reader.place) size limit) rfl
  have advanced := reader.precedes_advance.trans onward
  -- The reader and the new one make the same pass over the same tokens.
  rw [precedes.limit, precedes.size, precedes.unread_eq] at passed
  obtain ⟨outcome, unread⟩ := Prod.mk.inj (passedNew.symm.trans passed)
  refine ⟨reader.read.1, reader.read.2, rfl, advanced.depth, advanced.place, fun remains => ?_,
    (ofTokens (tokens.drop reader.place) size limit).read.2, Prod.ext outcome rfl, ?_⟩
  · rw [← List.size_toArray, ← show reader.tokens = tokens.toArray from precedes.tokens] at remains
    exact Nat.lt_of_lt_of_le (place_lt_advance remains) onward.place
  · rw [unread, (precedes.trans advanced).unread_eq]

end TokenReader

end RuleLisp
