import RuleLisp.Number.Binary

/-! # Similar words

How alike two words are, as a number between zero and one. Characters of two words are *partners*
if they are the same and stand at nearly the same place. Two words are alike if most characters of
both have partners, and if the partners come in the same order in both.
-/

namespace RuleLisp.Text

/-- A character of a word, and whether it has a partner in another word. -/
structure Place where
  char : Char
  paired : Bool
deriving DecidableEq, Repr

/-- Pairs a character with the first free place that holds it, among the `count` places that follow
the first `skipped` ones. -/
def pair? (char : Char) : (skipped count : Nat) → List Place → Option (List Place)
  | _, _, [] => none
  | skipped + 1, count, place :: rest => (pair? char skipped count rest).map (place :: ·)
  | 0, 0, _ :: _ => none
  | 0, count + 1, place :: rest =>
      if place.char = char ∧ ¬place.paired then some (⟨char, true⟩ :: rest)
      else (pair? char 0 count rest).map (place :: ·)

/-- Pairs the characters from an index on in turn, each with a place that is at most `reach` away.
It gives the characters that have found partners, and the places afterwards. -/
def pairAll (reach index : Nat) : List Char → List Place → List Char × List Place
  | [], places => ([], places)
  | char :: rest, places =>
      let first := index - reach
      match pair? char first (index + reach + 1 - first) places with
      | none => pairAll reach (index + 1) rest places
      | some places =>
          let (paired, places) := pairAll reach (index + 1) rest places
          (char :: paired, places)

/-- The characters of two words that have partners, each in the order of its own word. Partners are
less than half the length of the longer word apart. -/
def partners (left right : List Char) : List Char × List Char :=
  let reach := max left.length right.length / 2 - 1
  let (paired, places) := pairAll reach 0 left (right.map (⟨·, false⟩))
  (paired, (places.filter Place.paired).map Place.char)

example : partners "hlep".toList "help".toList = ("hlep".toList, "help".toList) := by decide

example : partners "lp".toList "help".toList = ([], []) := by decide

/-- Half the number of partners that come in another order. -/
def swaps (left right : List Char) : Nat :=
  ((left.zip right).filter fun (leftChar, rightChar) => leftChar ≠ rightChar).length / 2

/-- How alike two words are: the mean of the share of the characters that have partners in the one
word, of that share in the other word, and of the share of the partners that are in order. -/
def similarity (left right : List Char) : Float :=
  let (paired, others) := partners left right
  if left.isEmpty && right.isEmpty then 1
  else if paired.isEmpty then 0
  else
    let count := Number.ofNat paired.length
    let ordered := Number.ofNat (paired.length - swaps paired others)
    (count / Number.ofNat left.length + count / Number.ofNat right.length + ordered / count) / 3

end RuleLisp.Text
