import Highlighter.Span

/-! # Paint — the spans rendered so far

    A sorted list of disjoint, non-empty spans.  It moves with the text on edits, the
    way marks in an editor do; what has gone stale is painted over the next time its
    range is rendered. -/

namespace Highlighter

/-- Spans sorted by start, disjoint and non-empty. -/
structure Paint where
  spans : List Span
  deriving DecidableEq, Repr

namespace Paint

def empty : Paint := ⟨[]⟩

instance : Inhabited Paint := ⟨empty⟩

def isEmpty (p : Paint) : Bool := p.spans.isEmpty

def length (p : Paint) : Nat := p.spans.length

/-- The style of one char, none where nothing is painted. -/
def styleAt? (p : Paint) (offset : Nat) : Option String :=
  (p.spans.find? (·.contains offset)).map (·.style)

/-- The spans inside `window`, clipped to it: spans that stop before the window are skipped, and
    the first one that starts behind it ends the search. -/
def query (p : Paint) (window : Extent) : List Span :=
  let rest := p.spans.dropWhile fun s => s.stop ≤ window.start
  let covered := rest.takeWhile fun s => s.start < window.stop
  (covered.map (·.clip window)).filter fun s => !s.isEmpty

/-- Puts `spans` in place of all that lies inside `window`; spans that reach outside keep their
    outside parts.  The new spans are sorted, disjoint and inside `window`. -/
def replace (p : Paint) (window : Extent) (spans : List Span) : Paint :=
  let before := p.spans.takeWhile fun s => s.stop ≤ window.start
  let rest := p.spans.dropWhile fun s => s.stop ≤ window.start
  let covered := rest.takeWhile fun s => s.start < window.stop
  let after := rest.dropWhile fun s => s.start < window.stop
  let head := (covered.head?.filter fun s => s.start < window.start).map
    fun s => s.moved ⟨s.start, window.start⟩
  let tail := (covered.getLast?.filter fun s => window.stop < s.stop).map
    fun s => s.moved ⟨window.stop, s.stop⟩
  ⟨before ++ head.toList ++ spans.filter (fun s => !s.isEmpty) ++ tail.toList ++ after⟩

/-- The paint once `len` chars stand at `pos`. -/
def afterInsert (p : Paint) (pos len : Nat) : Paint :=
  ⟨p.spans.map fun s => s.moved (s.extent.afterInsert pos len)⟩

/-- The paint once the chars from `start` up to `stop` are gone. -/
def afterDelete (p : Paint) (start stop : Nat) : Paint :=
  if stop ≤ start then p
  else
    ⟨(p.spans.map fun s => s.moved (s.extent.afterDelete start stop)).filter
      fun s => !s.isEmpty⟩

end Paint

end Highlighter
