import Highlighter.Extent

/-! # Extent sets — sets of offsets kept as disjoint extents

    The extents of a set are sorted, non-empty and never touch, so a set of offsets
    has one form.  `insert` merges an extent with all it overlaps or touches, `erase`
    cuts one out, and the two edit maps carry the set along with the text. -/

namespace Highlighter

/-- A set of offsets: sorted, non-empty extents with gaps between them. -/
structure ExtentSet where
  extents : List Extent
  deriving DecidableEq, Repr

namespace ExtentSet

def empty : ExtentSet := ⟨[]⟩

instance : EmptyCollection ExtentSet := ⟨empty⟩

instance : Inhabited ExtentSet := ⟨empty⟩

def isEmpty (s : ExtentSet) : Bool := s.extents.isEmpty

/-- An offset is in the set when one of the extents holds it. -/
instance : Membership Nat ExtentSet where
  mem s p := ∃ e ∈ s.extents, p ∈ e

/-- Adds the offsets of `e`: the extents that `e` overlaps or touches become one with it. -/
def insert (s : ExtentSet) (e : Extent) : ExtentSet :=
  if e.isEmpty then s
  else
    let before := s.extents.takeWhile fun r => r.stop < e.start
    let rest := s.extents.dropWhile fun r => r.stop < e.start
    let touching := rest.takeWhile fun r => r.start ≤ e.stop
    let after := rest.dropWhile fun r => r.start ≤ e.stop
    ⟨before ++ touching.foldl Extent.hull e :: after⟩

/-- Removes the offsets of `e`, splitting an extent it cuts through. -/
def erase (s : ExtentSet) (e : Extent) : ExtentSet :=
  if e.isEmpty then s else ⟨s.extents.flatMap (·.minus e)⟩

/-- The parts of the set inside `e`, in order: extents that stop before `e` are skipped, and the
    first one that starts behind it ends the search. -/
def within (s : ExtentSet) (e : Extent) : List Extent :=
  let rest := s.extents.dropWhile fun r => r.stop ≤ e.start
  let covered := rest.takeWhile fun r => r.start < e.stop
  (covered.map (·.clip e)).filter fun r => !r.isEmpty

/-- Some offset of `e` is in the set. -/
def overlaps (s : ExtentSet) (e : Extent) : Bool := !(s.within e).isEmpty

/-- The set once `len` chars stand at `pos`. -/
def afterInsert (s : ExtentSet) (pos len : Nat) : ExtentSet :=
  ⟨s.extents.map (·.afterInsert pos len)⟩

/-- The set once the chars from `start` up to `stop` are gone; extents that come to touch
    merge and those left with nothing vanish. -/
def afterDelete (s : ExtentSet) (start stop : Nat) : ExtentSet :=
  if stop ≤ start then s
  else s.extents.foldl (fun t e => t.insert (e.afterDelete start stop)) empty

end ExtentSet

end Highlighter
