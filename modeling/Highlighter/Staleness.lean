import Highlighter.Extent.Set

/-! # Staleness — which ranges must be rendered again

    Two sets of offsets drive lazy rendering: `dirty` holds what is stale, `requested`
    what a view wants kept fresh.  `refresh` renders the dirty parts of a range, each at
    most once; the renderer may cover more than it was asked to, and all it covered is
    clean afterwards. -/

namespace Highlighter

/-- Stale offsets, wanted offsets, and the number of render passes so far. -/
structure Staleness where
  dirty     : ExtentSet := ∅
  requested : ExtentSet := ∅
  renders   : Nat := 0
  deriving DecidableEq, Repr, Inhabited

namespace Staleness

variable {σ : Type}

def mark (t : Staleness) (e : Extent) : Staleness := { t with dirty := t.dirty.insert e }

def request (t : Staleness) (e : Extent) : Staleness :=
  { t with requested := t.requested.insert e }

def clearRequested (t : Staleness) : Staleness := { t with requested := ∅ }

def clearDirty (t : Staleness) : Staleness := { t with dirty := ∅ }

/-- The dirty parts of the requested ranges, in order. -/
def pending (t : Staleness) : List Extent := t.requested.extents.flatMap t.dirty.within

/-- One stale part: skipped when an earlier, wider pass has left nothing dirty in it, else
    rendered and clean, along with all that the pass covered. -/
def refreshPart (render : σ → Extent → σ × Extent) (acc : Staleness × σ × Nat) (part : Extent) :
    Staleness × σ × Nat :=
  let (t, s, count) := acc
  if t.dirty.overlaps part then
    let (s', covered) := render s part
    ({ t with dirty := (t.dirty.erase part).erase covered, renders := t.renders + 1 }, s',
      count + 1)
  else acc

/-- Renders every dirty part of `e` and answers how many passes that took.  `render` threads
    a state of its own and answers the extent it covered. -/
def refresh (t : Staleness) (e : Extent) (render : σ → Extent → σ × Extent) (s : σ) :
    Staleness × σ × Nat :=
  (t.dirty.within e).foldl (refreshPart render) (t, s, 0)

def afterInsert (t : Staleness) (pos len : Nat) : Staleness :=
  { t with dirty := t.dirty.afterInsert pos len, requested := t.requested.afterInsert pos len }

def afterDelete (t : Staleness) (start stop : Nat) : Staleness :=
  { t with
    dirty := t.dirty.afterDelete start stop
    requested := t.requested.afterDelete start stop }

end Staleness

end Highlighter
