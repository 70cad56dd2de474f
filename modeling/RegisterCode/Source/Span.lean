import RegisterCode.Fault

/-!
# Source spans

Spans after section 10.2 of the specification (`SPEC_FULL.md`, "Span"). A span is a pair of source
positions. Nothing forces its end to lie behind its start: asking such a span for its length is a
fault.

Out of scope: the width of 32 bits. Positions are unbounded.
-/

namespace RegisterCode

/-- The source positions `start`, …, `stop - 1`. -/
structure Span where
  /-- First position. -/
  start : Nat
  /-- Position behind the last one. -/
  stop : Nat
  deriving DecidableEq

namespace Span

/-- The span of nodes that stand nowhere in the source. -/
def dummy : Span := ⟨0, 0⟩

/-- The one-wide span at position `p`. -/
def single (p : Nat) : Span := ⟨p, p + 1⟩

/-- Number of positions covered. -/
def length (s : Span) : Except Fault Nat :=
  if s.stop < s.start then .error .negativeLength else .ok (s.stop - s.start)

/-- Whether the span starts where it ends. -/
def isEmpty (s : Span) : Bool := s.start == s.stop

/-- The smallest span that reaches over both. -/
def merge (s t : Span) : Span := ⟨min s.start t.start, max s.stop t.stop⟩

/-- The form in which a span is shown beside its node. -/
def dump (s : Span) : String := s!"{s.start}..{s.stop}"

end Span

end RegisterCode
