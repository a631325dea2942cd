import RuleLisp.Proofs.Grammar.Reader

/-! # Signatures

A definition is read only if its signature has a name, so no function is without one.
-/

namespace RuleLisp

namespace ReadStep

variable {limit : Nat} {token : Token}

theorem start_opening (holes : List Hole) (bracket : token.lexeme = .opening .round) :
    (∃ error unread, start limit holes token = .wrong error unread) ∨
      start limit holes token = .more (.list token.span []) holes := by
  unfold start
  rw [bracket]
  dsimp only
  split
  · exact .inl ⟨_, _, rfl⟩
  · exact .inr rfl

/-- A round bracket opens a list wherever it may stand. -/
theorem next_opening (opened : Open) (bracket : token.lexeme = .opening .round) :
    (∃ error unread, next limit opened token = .wrong error unread) ∨
      ∃ holes, next limit opened token = .more (.list token.span []) holes := by
  have effect := effect_next opened token
  generalize steps : (fun limit => next limit opened token) = taken at effect
  rw [congrFun steps limit]
  cases effect with
  | @starts holes depth =>
      exact (start_opening holes bracket).imp_right fun more => ⟨holes, more⟩
  | closes expr place closing => cases bracket.symm.trans closing
  | marks following place word => cases bracket.symm.trans word
  | breaks reason span => exact .inl ⟨_, _, rfl⟩

end ReadStep

namespace Expr

variable (limit size : Nat)

/-- The beginning of a definition whose signature is empty. -/
def unnamedDefinition : List Lexeme :=
  [.opening .round, .word functionWord, .opening .round, .closing .round]

theorem readAllOn_unnamed (opened : Open) (finished : List Expr) {tokens : List Token}
    (unnamed : tokens.map Token.lexeme = unnamedDefinition) (rest : List Token) :
    ∃ error, readAllOn limit size opened finished (tokens ++ rest) = .error error := by
  rcases tokens with _ | ⟨first, _ | ⟨word, _ | ⟨second, _ | ⟨last, _ | _⟩⟩⟩⟩ <;>
    simp only [List.map_cons, List.map_nil, unnamedDefinition, List.cons.injEq, reduceCtorEq,
      and_false, and_true] at unnamed
  rcases unnamed with ⟨opening, definition, signature, closing⟩
  simp only [List.cons_append, List.nil_append]
  rw [readAllOn_cons]
  rcases ReadStep.next_opening opened opening with ⟨error, unread, wrong⟩ | ⟨holes, listed⟩
  · rw [wrong]
    exact ⟨error, rfl⟩
  have defined : ReadStep.next limit (.bracket (.list first.span []) holes) word =
      .more (.definition first.span) holes := by
    simp [ReadStep.next, ReadStep.nextInside, definition]
  have signed : ReadStep.next limit (.bracket (.definition first.span) holes) second =
      ReadStep.start limit (.signature first.span second.span :: holes) second := by
    simp [ReadStep.next, ReadStep.nextInside, signature]
  rw [listed, proceed, readAllOn_cons, defined, proceed, readAllOn_cons, signed]
  rcases ReadStep.start_opening (.signature first.span second.span :: holes) signature with
    ⟨error, unread, wrong⟩ | empty
  · rw [wrong]
    exact ⟨error, rfl⟩
  · rw [empty, proceed, readAllOn_cons]
    refine ⟨.invalidDefinition "the signature needs a function name" second.span, ?_⟩
    simp [ReadStep.next, ReadStep.nextInside, closing, ReadStep.fill, ReadStep.sign,
      ReadStep.signatureNames, proceed]

theorem readAllOn_append_unnamed (opened : Open) (finished : List Expr) (before : List Token)
    {tokens : List Token} (unnamed : tokens.map Token.lexeme = unnamedDefinition)
    (rest : List Token) :
    ∃ error, readAllOn limit size opened finished (before ++ (tokens ++ rest)) = .error error := by
  induction before generalizing opened finished with
  | nil => exact readAllOn_unnamed limit size opened finished unnamed rest
  | cons token before induction =>
      rw [List.cons_append, readAllOn_cons]
      cases ReadStep.next limit opened token with
      | more inside outer => exact induction (.bracket inside outer) finished
      | done expr => exact induction .nothing (expr :: finished)
      | wrong error unread => exact ⟨error, rfl⟩

/-- What is read has a name in every signature. -/
theorem not_unnamed_of_parse {source : String} {exprs : List Expr}
    (parsed : parse limit source = .ok exprs) : ¬unnamedDefinition <:+: Lexeme.scan source := by
  intro inside
  rcases inside with ⟨before, after, scanned⟩
  rcases List.map_eq_append_iff.mp scanned.symm with ⟨front, back, split, frontLexemes, _⟩
  rcases List.map_eq_append_iff.mp frontLexemes with ⟨start, tokens, frontSplit, _, unnamed⟩
  rcases readAllOn_append_unnamed limit source.utf8ByteSize .nothing [] start unnamed back with
    ⟨error, failed⟩
  rw [parse_eq_readAll, readAll, split, frontSplit, List.append_assoc, failed] at parsed
  cases parsed

end Expr

end RuleLisp
