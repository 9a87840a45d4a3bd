/-! # Extents — half-open stretches of offsets

    An extent names the offsets from `start` up to, but not including, `stop`.  A
    caller may hand in a reversed one; it holds no offset, and each operation says
    what it does with it.  Two edits move offsets: an insertion opens a gap and a
    deletion closes one, and `afterInsert` / `afterDelete` say where an extent goes. -/

namespace Highlighter

/-- The offsets `p` with `start ≤ p < stop`. -/
structure Extent where
  start : Nat
  stop  : Nat
  deriving DecidableEq, Repr, Inhabited

namespace Extent

/-- An extent that stops where it starts, or before, holds nothing. -/
def isEmpty (e : Extent) : Bool := e.stop ≤ e.start

instance : Membership Nat Extent where
  mem e p := e.start ≤ p ∧ p < e.stop

instance (p : Nat) (e : Extent) : Decidable (p ∈ e) :=
  inferInstanceAs (Decidable (e.start ≤ p ∧ p < e.stop))

/-- The part of `e` inside `window`; empty or reversed when they do not meet. -/
def clip (e window : Extent) : Extent :=
  ⟨max e.start window.start, min e.stop window.stop⟩

/-- The pieces of `e` outside `hole`, in order. -/
def minus (e hole : Extent) : List Extent :=
  if e.stop ≤ hole.start ∨ hole.stop ≤ e.start then [e]
  else
    (if e.start < hole.start then [⟨e.start, hole.start⟩] else []) ++
      (if hole.stop < e.stop then [⟨hole.stop, e.stop⟩] else [])

/-- The least extent that holds both. -/
def hull (e f : Extent) : Extent := ⟨min e.start f.start, max e.stop f.stop⟩

/-- Both ends brought down to `len`. -/
def clampTo (e : Extent) (len : Nat) : Extent := ⟨min e.start len, min e.stop len⟩

/-- Where `e` lies once `len` chars stand at `pos`: an extent at or past the gap moves,
    one that the gap opens strictly inside grows. -/
def afterInsert (e : Extent) (pos len : Nat) : Extent :=
  if pos ≤ e.start then ⟨e.start + len, e.stop + len⟩
  else if pos < e.stop then ⟨e.start, e.stop + len⟩
  else e

end Extent

/-- Where an offset lies once the chars from `start` up to `stop` are gone: those inside the
    hole gather at `start`, those past it move down. -/
def offsetAfterDelete (start stop p : Nat) : Nat :=
  if p ≤ start then p
  else if stop ≤ p then p - (stop - start)
  else start

namespace Extent

/-- Where `e` lies once the chars from `start` up to `stop` are gone. -/
def afterDelete (e : Extent) (start stop : Nat) : Extent :=
  ⟨offsetAfterDelete start stop e.start, offsetAfterDelete start stop e.stop⟩

end Extent

end Highlighter
