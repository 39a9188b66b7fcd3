/-!
# Positions

Where a piece of query text stands: its bytes from `start` up to `stop`, and the line and column
of its first byte, both counted from 1.

Main statement: `isEmpty_iff` says when a span covers no bytes.
-/

namespace QueryTyping

/-- A stretch of query text. -/
structure Span where
  start : Nat
  stop : Nat
  line : Nat
  column : Nat
  deriving DecidableEq, Repr

namespace Span

/-- The span of what carries no position. -/
def unknown : Span := ⟨0, 0, 1, 1⟩

instance : Inhabited Span := ⟨unknown⟩

/-- The number of bytes covered.  A span that ends before it starts covers none. -/
def length (s : Span) : Nat := s.stop - s.start

/-- The span covers no bytes. -/
def isEmpty (s : Span) : Bool := s.length == 0

theorem isEmpty_iff {s : Span} : s.isEmpty = true ↔ s.stop ≤ s.start := by
  simp only [isEmpty, length, beq_iff_eq]; omega

end Span
end QueryTyping
