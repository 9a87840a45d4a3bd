import Highlighter.Extent

/-! # Spans — styled runs of a document -/

namespace Highlighter

/-- The chars from `start` up to `stop` in one style. -/
structure Span where
  start : Nat
  stop  : Nat
  style : String
  deriving DecidableEq, Repr, Inhabited

namespace Span

def extent (s : Span) : Extent := ⟨s.start, s.stop⟩

def isEmpty (s : Span) : Bool := s.stop ≤ s.start

/-- The style covers the char at `p`. -/
def contains (s : Span) (p : Nat) : Bool := s.start ≤ p && p < s.stop

/-- Number of chars covered. -/
def length (s : Span) : Nat := s.stop - s.start

/-- The same style over other offsets. -/
def moved (s : Span) (e : Extent) : Span := ⟨e.start, e.stop, s.style⟩

/-- The part of the span inside `window`. -/
def clip (s : Span) (window : Extent) : Span := s.moved (s.extent.clip window)

end Span

end Highlighter
