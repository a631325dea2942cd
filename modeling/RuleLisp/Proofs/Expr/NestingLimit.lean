import RuleLisp.Proofs.Grammar.Reader

/-! # The nesting limit

The reader counts the brackets that are open. The limit is compared with that count where a bracket
opens, and nowhere else, so it decides how far a source is read and never what is read.
-/

namespace RuleLisp

/-! ## Open brackets -/

namespace Lexeme

def isOpening : Lexeme → Bool
  | opening _ => true
  | _ => false

def isClosing : Lexeme → Bool
  | closing _ => true
  | _ => false

def rise : Lexeme → Int
  | opening _ => 1
  | closing _ => -1
  | word _ => 0

end Lexeme

namespace Token

def excess (tokens : List Token) : Int :=
  tokens.countP (·.lexeme.isOpening) - tokens.countP (·.lexeme.isClosing)

@[simp] theorem excess_nil : excess [] = 0 :=
  rfl

theorem excess_cons (token : Token) (rest : List Token) :
    excess (token :: rest) = token.lexeme.rise + excess rest := by
  rcases token with ⟨lexeme, span⟩
  cases lexeme <;> simp [excess, Lexeme.isOpening, Lexeme.isClosing, Lexeme.rise]
  all_goals omega

theorem rise_eq_one {token : Token} (opening : token.lexeme.isOpening = true) :
    token.lexeme.rise = 1 := by
  rcases token with ⟨_ | _ | _, span⟩ <;> simp_all [Lexeme.isOpening, Lexeme.rise]

theorem rise_le_zero {token : Token} (opensNothing : token.lexeme.isOpening = false) :
    token.lexeme.rise ≤ 0 := by
  rcases token with ⟨_ | _ | _, span⟩ <;> simp_all [Lexeme.isOpening, Lexeme.rise]

/-- No first tokens have more than the given number of brackets open. -/
def StaysWithin (spare : Int) (tokens : List Token) : Prop :=
  ∀ front, front <+: tokens → excess front ≤ spare

/-- The bracket is the first that opens one more than the given number. -/
def IsFirstBeyond (spare : Int) (tokens : List Token) (bracket : Token) : Prop :=
  ∃ front after, tokens = front ++ bracket :: after ∧ StaysWithin spare front ∧
    bracket.lexeme.isOpening = true ∧ excess (front ++ [bracket]) = spare + 1

variable {spare : Int} {token bracket : Token} {tokens rest : List Token}

theorem staysWithin_nil (enough : 0 ≤ spare) : StaysWithin spare [] := by
  intro front first
  rw [List.prefix_nil.mp first]
  exact enough

theorem StaysWithin.cons (enough : 0 ≤ spare)
    (within : StaysWithin (spare - token.lexeme.rise) rest) :
    StaysWithin spare (token :: rest) := by
  intro front first
  rcases List.prefix_cons_iff.mp first with rfl | ⟨shorter, rfl, firstOfRest⟩
  · exact enough
  · have bounded := within shorter firstOfRest
    rw [excess_cons]
    omega

theorem IsFirstBeyond.cons (enough : 0 ≤ spare)
    (beyond : IsFirstBeyond (spare - token.lexeme.rise) rest bracket) :
    IsFirstBeyond spare (token :: rest) bracket := by
  obtain ⟨front, after, split, within, opening, reached⟩ := beyond
  have sum := excess_cons token (front ++ [bracket])
  refine ⟨token :: front, after, by rw [split, List.cons_append], within.cons enough, opening, ?_⟩
  rw [List.cons_append]
  omega

theorem isFirstBeyond_head (opening : token.lexeme.isOpening = true) :
    IsFirstBeyond 0 (token :: rest) token := by
  have alone : excess [token] = 1 := by
    rw [excess_cons, excess_nil, rise_eq_one opening]
    rfl
  exact ⟨[], rest, rfl, staysWithin_nil (le_refl 0), opening, alone⟩

theorem IsFirstBeyond.not_staysWithin (beyond : IsFirstBeyond spare tokens bracket) :
    ¬StaysWithin spare tokens := by
  obtain ⟨front, after, rfl, -, -, reached⟩ := beyond
  intro within
  have bounded := within (front ++ [bracket]) ⟨after, by simp⟩
  omega

end Token

/-! ## Reading under two limits -/

theorem ReadStep.exists_start_opening (holes : List Hole) {token : Token} {shape : Shape}
    (opening : token.lexeme = .opening shape) :
    ∃ inside, ∀ limit, start limit holes token =
      if limit ≤ holes.length then .wrong (.nestingTooDeep limit token.span) false
      else .more inside holes := by
  cases shape with
  | round => exact ⟨.list token.span [], fun limit => by simp [start, opening]⟩
  | curly => exact ⟨.object, fun limit => by simp [start, opening]⟩

namespace Expr

/-- Filling a hole leaves the brackets around it open, whatever the limit is. -/
theorem proceed_fill_cases (size : Nat) (finished : List Expr) (rest : List Token) (expr : Expr)
    (holes : List Hole) :
    (∃ error, ∀ limit, proceed limit size finished rest (.fill expr holes) = .error error) ∨
    ∃ (following : Open) (exprs : List Expr), following.depth = holes.length ∧
      ∀ limit, proceed limit size finished rest (.fill expr holes) =
        readAllOn limit size following exprs rest := by
  rcases holes with _ | ⟨hole, outer⟩
  · exact .inr ⟨.nothing, expr :: finished, rfl, fun _ => rfl⟩
  cases hole with
  | signature opened bracket =>
      simp only [ReadStep.fill]
      unfold ReadStep.sign
      split
      · split
        · exact .inl ⟨_, fun _ => rfl⟩
        · exact .inl ⟨_, fun _ => rfl⟩
        · exact .inr ⟨.bracket _ outer, finished, rfl, fun _ => rfl⟩
      · exact .inl ⟨_, fun _ => rfl⟩
  | key spread properties started =>
      simp only [ReadStep.fill]
      split
      · exact .inr ⟨.bracket _ outer, finished, rfl, fun _ => rfl⟩
      · exact .inl ⟨_, fun _ => rfl⟩
  | item | body | spread | value =>
      exact .inr ⟨.bracket _ outer, finished, rfl, fun _ => rfl⟩

/-- The limit matters for a row of tokens only where its first token opens a bracket. -/
theorem readAllOn_cons_cases (size : Nat) (opened : Open) (finished : List Expr) (token : Token)
    (rest : List Token) :
    (∃ error, ∀ limit, readAllOn limit size opened finished (token :: rest) = .error error) ∨
    (token.lexeme.isOpening = false ∧ ∃ (following : Open) (exprs : List Expr),
      (following.depth : Int) = opened.depth + token.lexeme.rise ∧
      ∀ limit, readAllOn limit size opened finished (token :: rest) =
        readAllOn limit size following exprs rest) ∨
    (token.lexeme.isOpening = true ∧ ∃ following : Open, following.depth = opened.depth + 1 ∧
      ∀ limit, readAllOn limit size opened finished (token :: rest) =
        if limit ≤ opened.depth then .error (.nestingTooDeep limit token.span)
        else readAllOn limit size following finished rest) := by
  have effect := ReadStep.effect_next opened token
  generalize steps : (fun limit => ReadStep.next limit opened token) = next at effect
  simp only [readAllOn_cons, fun limit => congrFun steps limit]
  cases effect with
  | @starts holes depth =>
      cases kind : token.lexeme with
      | opening shape =>
          obtain ⟨inside, started⟩ := ReadStep.exists_start_opening holes kind
          refine .inr (.inr ⟨rfl, .bracket inside holes, congrArg (· + 1) depth, fun limit => ?_⟩)
          dsimp only
          rw [started, depth]
          split <;> rfl
      | closing shape =>
          simp only [ReadStep.start, kind]
          exact .inl ⟨_, fun _ => rfl⟩
      | word text =>
          cases reading : Atom.ofWord? text with
          | none =>
              simp only [ReadStep.start, kind, reading]
              exact .inl ⟨_, fun _ => rfl⟩
          | some atom =>
              simp only [ReadStep.start, kind, reading]
              rcases proceed_fill_cases size finished rest (.atom atom) holes with
                fails | ⟨following, exprs, filled, reads⟩
              · exact .inl fails
              · refine .inr (.inl ⟨rfl, following, exprs, ?_, reads⟩)
                rw [filled, depth, Lexeme.rise, Int.add_zero]
  | @closes inside outer shape expr place closing =>
      rcases proceed_fill_cases size finished rest expr outer with
        fails | ⟨following, exprs, filled, reads⟩
      · exact .inl fails
      · refine .inr (.inl ⟨by rw [closing]; rfl, following, exprs, ?_, reads⟩)
        rw [filled, place, closing, Open.depth, Lexeme.rise]
        omega
  | @marks inside outer text following place word =>
      refine .inr (.inl ⟨by rw [word]; rfl, .bracket following outer, finished, ?_, fun _ => rfl⟩)
      rw [place, word, Lexeme.rise, Int.add_zero]
      rfl
  | breaks reason span => exact .inl ⟨_, fun _ => rfl⟩

/-- The answers of a reader that may open a given number of brackets more, for tokens that make the
given expressions. -/
inductive Limited (limit : Nat) (spare : Int) (tokens : List Token) (exprs : List Expr) :
    Except ParseError (List Expr) → Prop
  | within (within : Token.StaysWithin spare tokens) : Limited limit spare tokens exprs (.ok exprs)
  | beyond {bracket : Token} (beyond : Token.IsFirstBeyond spare tokens bracket) :
      Limited limit spare tokens exprs (.error (.nestingTooDeep limit bracket.span))

theorem Limited.cons {limit : Nat} {spare : Int} {token : Token} {rest : List Token}
    {exprs : List Expr} {answer : Except ParseError (List Expr)} (enough : 0 ≤ spare)
    (limited : Limited limit (spare - token.lexeme.rise) rest exprs answer) :
    Limited limit spare (token :: rest) exprs answer := by
  cases limited with
  | within within => exact .within (within.cons enough)
  | beyond beyond => exact .beyond (beyond.cons enough)

theorem limited_readAllOn {m size : Nat} {opened : Open} {finished exprs : List Expr}
    {tokens : List Token} (read : readAllOn m size opened finished tokens = .ok exprs) {n : Nat}
    (fits : opened.depth ≤ n) :
    Limited n (n - opened.depth) tokens exprs (readAllOn n size opened finished tokens) := by
  induction tokens generalizing opened finished with
  | nil =>
      have same : readAllOn n size opened finished [] = .ok exprs := read
      rw [same]
      exact .within (Token.staysWithin_nil (by omega))
  | cons token rest induction =>
      rcases readAllOn_cons_cases size opened finished token rest with
        ⟨error, fails⟩ | ⟨opensNothing, following, exprs, depth, reads⟩ |
        ⟨opening, following, depth, reads⟩
      · rw [fails] at read
        cases read
      · rw [reads] at read ⊢
        have falls := Token.rise_le_zero opensNothing
        have limited := induction read (by omega)
        rw [depth, ← Int.sub_sub] at limited
        exact limited.cons (by omega)
      · rw [reads] at read ⊢
        split at read
        · cases read
        have rises := Token.rise_eq_one opening
        split
        · next full =>
          have spent : (n : Int) - opened.depth = 0 := by omega
          rw [spent]
          exact .beyond (Token.isFirstBeyond_head opening)
        · have limited := induction read (by omega)
          have spare : (n : Int) - following.depth = n - opened.depth - token.lexeme.rise := by
            omega
          rw [spare] at limited
          exact limited.cons (by omega)

theorem readAllOn_of_error {m size : Nat} {opened : Open} {finished : List Expr}
    {tokens : List Token} {error : ParseError}
    (failed : readAllOn m size opened finished tokens = .error error)
    (other : ∀ limit span, error ≠ .nestingTooDeep limit span) (n : Nat) :
    readAllOn n size opened finished tokens = .error error ∨
      ∃ span, readAllOn n size opened finished tokens = .error (.nestingTooDeep n span) := by
  induction tokens generalizing opened finished with
  | nil => exact .inl failed
  | cons token rest induction =>
      rcases readAllOn_cons_cases size opened finished token rest with
        ⟨error', fails⟩ | ⟨_, following, exprs, _, reads⟩ | ⟨_, following, _, reads⟩
      · rw [fails] at failed ⊢
        exact .inl failed
      · rw [reads] at failed ⊢
        exact induction failed
      · rw [reads] at failed ⊢
        split at failed
        · cases failed
          exact absurd rfl (other m token.span)
        · split
          · exact .inr ⟨token.span, rfl⟩
          · exact induction failed

/-- What a source reads as does not depend on the limit, and the limit is exceeded exactly at the
first bracket that opens too many. -/
theorem parse_nesting_exact (source : String) (m n : Nat) :
    (∀ exprs, parse m source = .ok exprs →
      (Token.StaysWithin n (Token.scan source) → parse n source = .ok exprs) ∧
      (¬Token.StaysWithin n (Token.scan source) → ∃ bracket,
        Token.IsFirstBeyond n (Token.scan source) bracket ∧
        parse n source = .error (.nestingTooDeep n bracket.span))) ∧
    ∀ error, parse m source = .error error → (∀ limit span, error ≠ .nestingTooDeep limit span) →
      parse n source = .error error ∨
        ∃ span, parse n source = .error (.nestingTooDeep n span) := by
  rw [parse_eq_readAll, parse_eq_readAll]
  constructor
  · intro exprs read
    have limited := limited_readAllOn read (n := n) (Nat.zero_le n)
    rw [Open.depth, Int.natCast_zero, Int.sub_zero] at limited
    change Limited n n (Token.scan source) exprs
      (readAll n source.utf8ByteSize (Token.scan source)) at limited
    generalize readAll n _ _ = answer at limited
    cases limited with
    | within within => exact ⟨fun _ => rfl, fun crossed => absurd within crossed⟩
    | beyond beyond => exact ⟨fun within => absurd within beyond.not_staysWithin,
        fun _ => ⟨_, beyond, rfl⟩⟩
  · intro error failed other
    exact readAllOn_of_error failed other n

/-- The second round bracket of a list is beyond a limit of one, and a word that lacks its closing
quote is wrong under every limit that it is reached under. -/
theorem parse_nesting_exact_list :
    (parse 2 "(f (g x))" = .ok [.list [.atom (.symbol "f"),
        .list [.atom (.symbol "g"), .atom (.symbol "x")]]] ∧
      ∃ bracket, Token.IsFirstBeyond 1 (Token.scan "(f (g x))") bracket ∧
        parse 1 "(f (g x))" = .error (.nestingTooDeep 1 bracket.span)) ∧
    (parse 2 "((\"" = .error (.unterminatedString ⟨2, 3⟩) ∧
      (parse 1 "((\"" = .error (.unterminatedString ⟨2, 3⟩) ∨
        ∃ span, parse 1 "((\"" = .error (.nestingTooDeep 1 span))) := by
  have read : parse 2 "(f (g x))" = .ok [.list [.atom (.symbol "f"),
      .list [.atom (.symbol "g"), .atom (.symbol "x")]]] := by
    rw [parse_eq_readAll, Token.scan_eq_ofChars]
    rfl
  have failed : parse 2 "((\"" = .error (.unterminatedString ⟨2, 3⟩) := by
    rw [parse_eq_readAll, Token.scan_eq_ofChars]
    rfl
  have beyond : ¬Token.StaysWithin 1 (Token.scan "(f (g x))") := by
    intro within
    have bounded := within ((Token.scan "(f (g x))").take 3) (List.take_prefix 3 _)
    rw [Token.scan_eq_ofChars] at bounded
    revert bounded
    decide +kernel
  exact ⟨⟨read, ((parse_nesting_exact _ 2 1).1 _ read).2 beyond⟩, failed,
    (parse_nesting_exact _ 2 1).2 _ failed (by intros; simp)⟩

end Expr

end RuleLisp
