import RuleLisp.Expr.Reader

/-! # Reading at other places

The reader hands the places of tokens on to its errors and decides nothing by them. If every span
of a row of tokens is moved, what is read stays the same, and the span of an error is moved in the
same way.
-/

namespace RuleLisp

def Token.relocate (move : Span → Span) (token : Token) : Token :=
  ⟨token.lexeme, move token.span⟩

namespace ParseError

def relocate (move : Span → Span) : ParseError → ParseError
  | unexpectedEnd expected span => unexpectedEnd expected (move span)
  | unexpectedClosing bracket span => unexpectedClosing bracket (move span)
  | invalidKey found span => invalidKey found (move span)
  | invalidDefinition reason span => invalidDefinition reason (move span)
  | unterminatedString span => unterminatedString (move span)
  | unreadable reason span => unreadable reason (move span)
  | nestingTooDeep limit span => nestingTooDeep limit (move span)

variable (move : Span → Span) (error : ParseError)

theorem code_relocate : (error.relocate move).code = error.code := by
  cases error <;> rfl

theorem message_relocate : (error.relocate move).message = error.message := by
  cases error <;> rfl

theorem relocate_const_relocate (place : Span) :
    ((error.relocate move).relocate fun _ => place) = error.relocate fun _ => place := by
  cases error <;> rfl

theorem relocate_own_span : (error.relocate fun _ => error.span) = error := by
  cases error <;> rfl

end ParseError

/-! ## Open brackets -/

def Hole.relocate (move : Span → Span) : Hole → Hole
  | item opened items => item (move opened) items
  | signature opened bracket => signature (move opened) (move bracket)
  | body name params => body name params
  | spread => spread
  | key base table started => key base table (move started)
  | value base table word => value base table word

def Inside.relocate (move : Span → Span) : Inside → Inside
  | list opened items => list (move opened) items
  | definition opened => definition (move opened)
  | signed opened name params => signed (move opened) name params
  | defined name params body => defined name params body
  | object => object
  | spreading => spreading
  | properties base table => properties base table
  | keyed base table word => keyed base table word

namespace Open

def relocate (move : Span → Span) : Open → Open
  | nothing => nothing
  | bracket inside outer => bracket (inside.relocate move) (outer.map (Hole.relocate move))

theorem expectedCloser_relocate (move : Span → Span) (opened : Open) :
    (opened.relocate move).expectedCloser = opened.expectedCloser := by
  cases opened with
  | nothing => rfl
  | bracket inside outer => cases inside <;> rfl

end Open

/-! ## Reading one token -/

namespace ReadStep

def relocate (move : Span → Span) : ReadStep → ReadStep
  | more inside outer => more (inside.relocate move) (outer.map (Hole.relocate move))
  | done expr => done expr
  | wrong error unread => wrong (error.relocate move) unread

variable (move : Span → Span) (limit : Nat)

theorem sign_relocate (opened bracket : Span) (outer : List Hole) (expr : Expr) :
    sign (move opened) (move bracket) (outer.map (Hole.relocate move)) expr =
      (sign opened bracket outer expr).relocate move := by
  cases expr with
  | list items =>
      unfold sign
      dsimp only
      split <;> rfl
  | atom | object | function => rfl

theorem fill_relocate (expr : Expr) (outer : List Hole) :
    fill expr (outer.map (Hole.relocate move)) = (fill expr outer).relocate move := by
  rcases outer with _ | ⟨hole, outer⟩
  · rfl
  cases hole with
  | signature opened bracket => exact sign_relocate move opened bracket outer expr
  | key spread properties started =>
      simp only [List.map_cons, Hole.relocate, fill]
      split <;> rfl
  | item | body | spread | value => rfl

theorem start_relocate (holes : List Hole) (token : Token) :
    start limit (holes.map (Hole.relocate move)) (token.relocate move) =
      (start limit holes token).relocate move := by
  rcases token with ⟨lexeme, span⟩
  cases lexeme with
  | opening shape =>
      simp only [start, Token.relocate, List.length_map]
      split
      · rfl
      · cases shape <;> rfl
  | closing shape => rfl
  | word text =>
      simp only [start, Token.relocate]
      split
      · exact fill_relocate move _ holes
      · rfl

theorem property_relocate (spread : Option Expr) (properties : Table Expr) (outer : List Hole)
    (token : Token) :
    property limit spread properties (outer.map (Hole.relocate move)) (token.relocate move) =
      (property limit spread properties outer token).relocate move := by
  unfold property
  change (if token.lexeme = _ then _ else _) = _
  split
  · exact fill_relocate move _ outer
  · exact start_relocate move limit (.key spread properties token.span :: outer) token

variable {move} (merges : ∀ left right, (move left).merge (move right) = move (left.merge right))

include merges

theorem nextInside_relocate (inside : Inside) (outer : List Hole) (token : Token) :
    nextInside limit (inside.relocate move) (outer.map (Hole.relocate move))
        (token.relocate move) =
      (nextInside limit inside outer token).relocate move := by
  -- A hole that is opened here is the moved form of the hole that is opened there.
  have starts (hole : Hole) := start_relocate move limit (hole :: outer) token
  have fills (expr : Expr) := fill_relocate move expr outer
  have lexeme : (token.relocate move).lexeme = token.lexeme := rfl
  cases inside with
  | list opened items =>
      simp only [nextInside, Inside.relocate, lexeme]
      split
      · exact fills (.list items.reverse)
      split
      · rfl
      · exact starts (.item opened items)
  | definition opened =>
      simp only [nextInside, Inside.relocate, lexeme]
      split
      · exact starts (.signature opened token.span)
      · rfl
  | signed opened name params =>
      simp only [nextInside, Inside.relocate, lexeme]
      split
      · simp only [relocate, ParseError.relocate, Token.relocate, merges]
      · exact starts (.body name params)
  | defined name params body =>
      simp only [nextInside, Inside.relocate, lexeme]
      split
      · exact fills (.function name params body)
      · rfl
  | object =>
      simp only [nextInside, Inside.relocate, lexeme]
      split
      · rfl
      · exact property_relocate move limit none [] outer token
  | spreading => exact starts .spread
  | properties spread properties =>
      exact property_relocate move limit spread properties outer token
  | keyed spread properties key => exact starts (.value spread properties key)

theorem next_relocate (opened : Open) (token : Token) :
    next limit (opened.relocate move) (token.relocate move) =
      (next limit opened token).relocate move := by
  cases opened with
  | nothing => exact start_relocate move limit [] token
  | bracket inside outer => exact nextInside_relocate limit merges inside outer token

end ReadStep

/-! ## Reading rows of tokens -/

namespace Expr

variable (limit : Nat) {move : Span → Span}
  (merges : ∀ left right, (move left).merge (move right) = move (left.merge right))
  {size moved : Nat} (ends : Span.point moved = move (.point size))

include merges ends

theorem readAllOn_relocate (opened : Open) (finished : List Expr) (tokens : List Token) :
    readAllOn limit moved (opened.relocate move) finished (tokens.map (Token.relocate move)) =
      (readAllOn limit size opened finished tokens).mapError (ParseError.relocate move) := by
  induction tokens generalizing opened finished with
  | nil =>
      cases opened with
      | nothing => rfl
      | bracket inside outer =>
          have closer := Open.expectedCloser_relocate move (.bracket inside outer)
          simp only [Open.relocate] at closer
          simp only [List.map_nil, Open.relocate, readAllOn, closer, ends]
          rfl
  | cons token rest induction =>
      rw [List.map_cons, readAllOn, readAllOn, ReadStep.next_relocate limit merges]
      cases ReadStep.next limit opened token with
      | more inside outer => exact induction (.bracket inside outer) finished
      | done expr => exact induction .nothing (expr :: finished)
      | wrong error unread => rfl

theorem readAll_relocate (tokens : List Token) :
    readAll limit moved (tokens.map (Token.relocate move)) =
      (readAll limit size tokens).mapError (ParseError.relocate move) :=
  readAllOn_relocate limit merges ends .nothing [] tokens

end Expr

end RuleLisp
