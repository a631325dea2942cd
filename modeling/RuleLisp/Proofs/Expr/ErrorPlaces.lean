import RuleLisp.Proofs.Token.Tiling

/-! # Where errors point

The reader remembers the places of tokens while brackets are open, and makes up no others. So every
error that is not about the end of the source names tokens of it: one token, or all from one token
to another.
-/

namespace RuleLisp

/-! ## Places that the reader remembers -/

def Hole.spans : Hole → List Span
  | item opened _ => [opened]
  | signature opened bracket => [opened, bracket]
  | key _ _ started => [started]
  | body .. | spread | value .. => []

def Inside.spans : Inside → List Span
  | list opened _ | definition opened | signed opened .. => [opened]
  | defined .. | object | spreading | properties .. | keyed .. => []

def Open.RemembersOnly (tokens : List Token) : Open → Prop
  | nothing => True
  | bracket inside outer =>
      (∀ span ∈ inside.spans, span ∈ tokens.map Token.span) ∧
        ∀ hole ∈ outer, ∀ span ∈ hole.spans, span ∈ tokens.map Token.span

/-- The tokens that an error is about, and why it is about them. -/
inductive ParseError.Blames (tokens : List Token) : ParseError → Prop
  | closing {token : Token} {shape : Shape} (member : token ∈ tokens)
      (closes : token.lexeme = .closing shape) :
      Blames tokens (.unexpectedClosing shape.closer token.span)
  | nesting {token : Token} {shape : Shape} (limit : Nat) (member : token ∈ tokens)
      (opens : token.lexeme = .opening shape) : Blames tokens (.nestingTooDeep limit token.span)
  | unterminated {token : Token} {text : String} (member : token ∈ tokens)
      (word : token.lexeme = .word text) (rejected : Atom.ofWord? text = none) :
      Blames tokens (.unterminatedString token.span)
  | key (found : String) {span : Span} (member : span ∈ tokens.map Token.span) :
      Blames tokens (.invalidKey found span)
  | definition (reason : String) {first last : Span} (firstMember : first ∈ tokens.map Token.span)
      (lastMember : last ∈ tokens.map Token.span) :
      Blames tokens (.invalidDefinition reason (first.merge last))

theorem Span.merge_self (span : Span) : span.merge span = span := by
  simp [merge]

theorem ParseError.blames_definition {tokens : List Token} (reason : String) {span : Span}
    (member : span ∈ tokens.map Token.span) : Blames tokens (.invalidDefinition reason span) := by
  have blamed := Blames.definition reason member member
  rwa [Span.merge_self] at blamed

namespace ReadStep

def IsAbout (tokens : List Token) : ReadStep → Prop
  | more inside outer => Open.RemembersOnly tokens (.bracket inside outer)
  | done _ => True
  | wrong error _ => error.Blames tokens

variable {tokens : List Token} {outer : List Hole}

section

variable (known : ∀ hole ∈ outer, ∀ span ∈ hole.spans, span ∈ tokens.map Token.span)

include known

theorem isAbout_sign {opened bracket : Span}
    (places : ∀ span ∈ Hole.spans (.signature opened bracket), span ∈ tokens.map Token.span)
    (expr : Expr) :
    (sign opened bracket outer expr).IsAbout tokens := by
  have blamed (reason : String) : ParseError.Blames tokens (.invalidDefinition reason bracket) :=
    ParseError.blames_definition reason (places bracket (by simp [Hole.spans]))
  unfold sign
  split
  · split
    · exact blamed _
    · exact blamed _
    · exact ⟨List.forall_mem_singleton.mpr (places opened List.mem_cons_self), known⟩
  · exact blamed _

omit known in
theorem isAbout_fill (expr : Expr) {holes : List Hole}
    (known : ∀ hole ∈ holes, ∀ span ∈ hole.spans, span ∈ tokens.map Token.span) :
    (fill expr holes).IsAbout tokens := by
  rcases holes with _ | ⟨hole, outer⟩
  · trivial
  rw [List.forall_mem_cons] at known
  rcases known with ⟨places, outerKnown⟩
  cases hole with
  | item opened items => exact ⟨places, outerKnown⟩
  | signature opened bracket => exact isAbout_sign outerKnown places expr
  | body | spread | value => exact ⟨List.forall_mem_nil _, outerKnown⟩
  | key spread properties started =>
      simp only [fill]
      split
      · exact ⟨List.forall_mem_nil _, outerKnown⟩
      · exact .key _ (places _ List.mem_cons_self)

variable (limit : Nat) {token : Token} (member : token ∈ tokens)

include member

theorem isAbout_start : (start limit outer token).IsAbout tokens := by
  have place : token.span ∈ tokens.map Token.span := List.mem_map_of_mem member
  unfold start
  split
  · next opens =>
      split
      · exact .nesting limit member opens
      · split
        · exact ⟨List.forall_mem_singleton.mpr place, known⟩
        · exact ⟨List.forall_mem_nil _, known⟩
  · next closes => exact .closing member closes
  · next word =>
      split
      · exact isAbout_fill _ known
      · next rejected => exact .unterminated member word rejected

theorem isAbout_startIn {hole : Hole}
    (places : ∀ span ∈ hole.spans, span ∈ tokens.map Token.span) :
    (start limit (hole :: outer) token).IsAbout tokens :=
  isAbout_start (List.forall_mem_cons.mpr ⟨places, known⟩) limit member

theorem isAbout_property (spread : Option Expr) (properties : Table Expr) :
    (property limit spread properties outer token).IsAbout tokens := by
  unfold property
  split
  · exact isAbout_fill _ known
  · exact isAbout_startIn known limit member
      (List.forall_mem_singleton.mpr (List.mem_map_of_mem member))

theorem isAbout_nextInside {inside : Inside}
    (places : ∀ span ∈ inside.spans, span ∈ tokens.map Token.span) :
    (nextInside limit inside outer token).IsAbout tokens := by
  have place : token.span ∈ tokens.map Token.span := List.mem_map_of_mem member
  cases inside with
  | list opened items =>
      simp only [nextInside]
      split
      · exact isAbout_fill _ known
      split
      · exact ⟨places, known⟩
      · exact isAbout_startIn known limit member places
  | definition opened =>
      simp only [nextInside]
      split
      · apply isAbout_startIn known limit member
        exact List.forall_mem_cons.mpr
          ⟨places _ List.mem_cons_self, List.forall_mem_singleton.mpr place⟩
      · exact ParseError.blames_definition _ place
  | signed opened name params =>
      simp only [nextInside]
      split
      · exact .definition _ (places _ List.mem_cons_self) place
      · exact isAbout_startIn known limit member (List.forall_mem_nil _)
  | defined name params body =>
      simp only [nextInside]
      split
      · exact isAbout_fill _ known
      · exact ParseError.blames_definition _ place
  | object =>
      simp only [nextInside]
      split
      · exact ⟨List.forall_mem_nil _, known⟩
      · exact isAbout_property known limit member none []
  | spreading => exact isAbout_startIn known limit member (List.forall_mem_nil _)
  | properties spread properties => exact isAbout_property known limit member spread properties
  | keyed spread properties key => exact isAbout_startIn known limit member (List.forall_mem_nil _)

end

theorem isAbout_next (limit : Nat) {opened : Open} (known : opened.RemembersOnly tokens)
    {token : Token} (member : token ∈ tokens) : (next limit opened token).IsAbout tokens := by
  cases opened with
  | nothing => exact isAbout_start (by simp) limit member
  | bracket inside outer => exact isAbout_nextInside known.2 limit member known.1

end ReadStep

theorem Expr.blames_of_readAllOn {limit size : Nat} {tokens rest : List Token} {opened : Open}
    (known : opened.RemembersOnly tokens) (among : rest ⊆ tokens) {finished : List Expr}
    {error : ParseError} (failed : readAllOn limit size opened finished rest = .error error) :
    (∃ expected, error = .unexpectedEnd expected (.point size)) ∨ error.Blames tokens := by
  induction rest generalizing opened finished with
  | nil =>
      cases opened with
      | nothing => cases failed
      | bracket inside outer =>
          cases failed
          exact .inl ⟨_, rfl⟩
  | cons token rest induction =>
      rw [List.cons_subset] at among
      rw [readAllOn] at failed
      have step := ReadStep.isAbout_next limit known among.1
      revert failed step
      cases ReadStep.next limit opened token with
      | more inside outer =>
          intro failed (known : (Open.bracket inside outer).RemembersOnly tokens)
          exact induction known among.2 failed
      | done expr =>
          intro failed _
          have known : Open.nothing.RemembersOnly tokens := trivial
          exact induction known among.2 failed
      | wrong other unread =>
          intro failed blames
          cases failed
          exact .inr blames

/-! ## The text at a place -/

namespace Span

def Marks (source : String) (span : Span) (text : String) : Prop :=
  ∃ front back, source = front ++ text ++ back ∧
    span = ⟨front.utf8ByteSize, (front ++ text).utf8ByteSize⟩

structure JoinsTokens (source : String) (span : Span) : Prop where
  starts : ∃ token ∈ Token.scan source, span.start = token.span.start
  stops : ∃ token ∈ Token.scan source, span.stop = token.span.stop
  nonempty : span.start < span.stop
  /-- The span lies in the source and cuts no character in two. -/
  marks : ∃ text, span.Marks source text

/-- Between two places where a source can be cut there is a text. -/
theorem exists_marks {source front back otherFront otherBack : String}
    (cut : source = front ++ back) (otherCut : source = otherFront ++ otherBack)
    (ordered : front.utf8ByteSize ≤ otherFront.utf8ByteSize) :
    ∃ text, Marks source ⟨front.utf8ByteSize, otherFront.utf8ByteSize⟩ text := by
  have chars : front.toList ++ back.toList = otherFront.toList ++ otherBack.toList := by
    rw [← String.toList_append, ← String.toList_append, ← cut, ← otherCut]
  rcases List.append_eq_append_iff.mp chars with ⟨rest, later, _⟩ | ⟨rest, earlier, _⟩
  · have longer : otherFront = front ++ String.ofList rest := by
      apply String.toList_inj.mp
      simpa using later
    exact ⟨String.ofList rest, front, otherBack, longer ▸ otherCut, by rw [longer]⟩
  · have shorter : front = otherFront ++ String.ofList rest := by
      apply String.toList_inj.mp
      simpa using earlier
    rw [shorter, String.utf8ByteSize_append] at ordered
    have nothing : String.ofList rest = "" :=
      String.utf8ByteSize_eq_zero_iff.mp (by omega)
    rw [nothing, String.append_empty] at shorter
    exact ⟨"", front, back, by rw [String.append_empty, cut], by
      rw [String.append_empty, shorter]⟩

end Span

namespace Tiles

variable {source : String} {tokens : List Token} (tiles : Tiles source tokens)

include tiles

theorem exists_cut_start {token : Token} (member : token ∈ tokens) :
    ∃ front back, source = front ++ back ∧ front.utf8ByteSize = token.span.start := by
  rcases tiles.text token member with ⟨front, back, same, span⟩
  exact ⟨front, token.lexeme.text ++ back, by rw [same, String.append_assoc], by rw [span]⟩

theorem exists_cut_stop {token : Token} (member : token ∈ tokens) :
    ∃ front back, source = front ++ back ∧ front.utf8ByteSize = token.span.stop := by
  rcases tiles.text token member with ⟨front, back, same, span⟩
  exact ⟨front ++ token.lexeme.text, back, same, by rw [span]⟩

theorem stop_eq_of_not_isBalanced {token : Token} (member : token ∈ tokens)
    (odd : ¬IsBalanced token.lexeme.text) : token.span.stop = source.utf8ByteSize := by
  have inhabited : tokens ≠ [] := List.ne_nil_of_mem member
  rw [← List.dropLast_append_getLast inhabited, List.mem_append, List.mem_singleton] at member
  rcases member with early | last
  · exact absurd (tiles.balanced token early) odd
  · exact tiles.unbalanced token (by rw [last]; exact List.getLast?_eq_some_getLast inhabited) odd

end Tiles

theorem Token.joinsTokens_merge {source : String} {first last : Token}
    (firstMember : first ∈ scan source) (lastMember : last ∈ scan source) :
    (first.span.merge last.span).JoinsTokens source := by
  have tiles := Tiles.of_scan source
  have starts : ∃ token ∈ scan source, (first.span.merge last.span).start = token.span.start := by
    rcases Nat.le_total first.span.start last.span.start with earlier | later
    · exact ⟨first, firstMember, Nat.min_eq_left earlier⟩
    · exact ⟨last, lastMember, Nat.min_eq_right later⟩
  have stops : ∃ token ∈ scan source, (first.span.merge last.span).stop = token.span.stop := by
    rcases Nat.le_total first.span.stop last.span.stop with earlier | later
    · exact ⟨last, lastMember, Nat.max_eq_right earlier⟩
    · exact ⟨first, firstMember, Nat.max_eq_left later⟩
  have nonempty : (first.span.merge last.span).start < (first.span.merge last.span).stop := by
    have inhabited := tiles.nonempty first firstMember
    simp only [Span.merge]
    omega
  refine ⟨starts, stops, nonempty, ?_⟩
  rcases starts with ⟨opener, openerMember, start_eq⟩
  rcases stops with ⟨closer, closerMember, stop_eq⟩
  rcases tiles.exists_cut_start openerMember with ⟨front, back, cut, size⟩
  rcases tiles.exists_cut_stop closerMember with ⟨otherFront, otherBack, otherCut, otherSize⟩
  have marks := Span.exists_marks cut otherCut (by omega)
  rwa [size, otherSize, ← start_eq, ← stop_eq] at marks

theorem Token.joinsTokens {source : String} {token : Token} (member : token ∈ scan source) :
    token.span.JoinsTokens source := by
  have joins := joinsTokens_merge member member
  rwa [Span.merge_self] at joins

/-- A word has no atom only if its first character is its only quotation mark. -/
theorem Atom.exists_of_ofWord?_eq_none {word : String} (rejected : ofWord? word = none) :
    ∃ rest, word = "\"" ++ rest ∧ '"' ∉ rest.toList := by
  unfold ofWord? ofText? ofQuoted? at rejected
  split_ifs at rejected
  split at rejected
  · cases rejected
  split at rejected
  · next rest starts =>
      split_ifs at rejected with unmarked
      refine ⟨String.ofList rest, String.toList_inj.mp ?_, by simpa using unmarked⟩
      simp [starts]
  · cases rejected

/-! ## Errors and their places -/

/-- An error is where it should be. The end of the source has no text. All other errors span tokens,
and some of them name what they span. -/
def ParseError.IsPlaced (source : String) : ParseError → Prop
  | unexpectedEnd _ span => span = .point source.utf8ByteSize
  | unexpectedClosing bracket span =>
      span.JoinsTokens source ∧ span.Marks source bracket.toString
  | nestingTooDeep _ span =>
      span.JoinsTokens source ∧ ∃ shape : Shape, span.Marks source shape.opener.toString
  | unterminatedString span =>
      span.JoinsTokens source ∧ span.stop = source.utf8ByteSize ∧
        ∃ rest, span.Marks source ("\"" ++ rest) ∧ '"' ∉ rest.toList
  | invalidKey _ span | invalidDefinition _ span | unreadable _ span => span.JoinsTokens source

theorem ParseError.Blames.isPlaced {source : String} {error : ParseError}
    (blames : error.Blames (Token.scan source)) : error.IsPlaced source := by
  have tiles := Tiles.of_scan source
  cases blames with
  | closing member closes =>
      have marks := tiles.text _ member
      rw [closes] at marks
      exact ⟨Token.joinsTokens member, marks⟩
  | nesting limit member opens =>
      have marks := tiles.text _ member
      rw [opens] at marks
      exact ⟨Token.joinsTokens member, _, marks⟩
  | unterminated member word rejected =>
      have marks := tiles.text _ member
      rcases Atom.exists_of_ofWord?_eq_none rejected with ⟨rest, rfl, unmarked⟩
      rw [word] at marks
      -- One quotation mark is an odd number of them, so this word was cut off by the end.
      have stop_eq := tiles.stop_eq_of_not_isBalanced member (by
        rw [word, Lexeme.text, IsBalanced, String.toList_append, List.count_append,
          List.count_eq_zero.mpr unmarked]
        decide)
      exact ⟨Token.joinsTokens member, stop_eq, rest, marks, unmarked⟩
  | key found place =>
      rcases List.mem_map.mp place with ⟨token, member, rfl⟩
      exact Token.joinsTokens member
  | definition reason firstPlace lastPlace =>
      rcases List.mem_map.mp firstPlace with ⟨first, firstMember, rfl⟩
      rcases List.mem_map.mp lastPlace with ⟨last, lastMember, rfl⟩
      exact Token.joinsTokens_merge firstMember lastMember

/-- Errors of reading point at what they name. -/
theorem Expr.errors_point_at_what_they_name {limit : Nat} {source : String} {error : ParseError}
    (failed : parse limit source = .error error) : error.IsPlaced source := by
  rw [parse_eq_readAll] at failed
  have known : Open.nothing.RemembersOnly (Token.scan source) := trivial
  rcases blames_of_readAllOn known (List.Subset.refl _) failed with ⟨expected, rfl⟩ | blames
  · rfl
  · exact blames.isPlaced

/-- Characters of two bytes stand before the mark and after it. -/
theorem Expr.errors_point_at_what_they_name_unterminated :
    parse 3 "(é \"ü" = .error (.unterminatedString ⟨4, 7⟩) ∧
      ParseError.IsPlaced "(é \"ü" (.unterminatedString ⟨4, 7⟩) := by
  have failed : parse 3 "(é \"ü" = .error (.unterminatedString ⟨4, 7⟩) := by
    rw [parse_eq_readAll, Token.scan_eq_ofChars]
    rfl
  exact ⟨failed, errors_point_at_what_they_name failed⟩

end RuleLisp
