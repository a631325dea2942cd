/-! # Spans of source text

Places in a source are counted in bytes of its UTF-8 form. A span is written by its first byte and
the byte after its last one. Spans that come from outside may lie anywhere and may even end before
they start, so the type asks for no order of its two ends.
-/

namespace RuleLisp

/-- The bytes from `start` up to, but not including, `stop`. -/
structure Span where
  start : Nat
  stop : Nat
deriving DecidableEq, Repr, Inhabited

namespace Span

def point (offset : Nat) : Span :=
  ⟨offset, offset⟩

def merge (left right : Span) : Span :=
  ⟨min left.start right.start, max left.stop right.stop⟩

/-- The number of bytes, zero for a span that ends before it starts. -/
def length (span : Span) : Nat :=
  span.stop - span.start

def isEmpty (span : Span) : Bool :=
  span.stop ≤ span.start

example : (Span.mk 4 7).merge (point 2) = ⟨2, 7⟩ := by decide

end Span

end RuleLisp
