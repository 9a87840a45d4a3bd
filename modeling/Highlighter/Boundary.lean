import Highlighter.Lexicon

/-! # Boundaries — where regions open and close

    Analysis leaves an ordered table of boundaries: an opening names its region, a close
    does not, and the two alternate.  While the text is not analyzed to its end the table
    also says where to go on and in which state.  After an edit the boundaries past it are
    set aside; once fresh analysis meets one of them again the rest still holds. -/

namespace Highlighter

/-- A signed move of an offset; offsets stop at zero. -/
def shift (offset : Nat) (delta : Int) : Nat := ((offset : Int) + delta).toNat

/-- The region of a tag opens, or without a tag the open region closes. -/
structure Boundary where
  offset : Nat
  tag    : Option Nat
  /-- Number of regions open after the boundary. -/
  depth  : Nat
  deriving DecidableEq, Repr, Inhabited

namespace Boundary

def opening (offset tag : Nat) : Boundary := { offset, tag := some tag, depth := 1 }

def closing (offset : Nat) : Boundary := { offset, tag := none, depth := 0 }

def opens (b : Boundary) : Bool := b.tag.isSome

def shifted (b : Boundary) (delta : Int) : Boundary := { b with offset := shift b.offset delta }

/-- The boundary that leads to a state. -/
def into (offset : Nat) : ScanState → Boundary
  | .outside => .closing offset
  | .inside tag => .opening offset tag

end Boundary

/-- Where analysis goes on, and in which state. -/
structure Frontier where
  offset : Nat
  state  : ScanState
  deriving DecidableEq, Repr, Inhabited

/-- An insertion of `delta` chars at `pos`, or a deletion of `-delta` chars from there. -/
structure Edit where
  pos   : Nat
  delta : Int
  deriving DecidableEq, Repr

namespace Edit

def insertion (pos count : Nat) : Edit := ⟨pos, count⟩

def deletion (start stop : Nat) : Edit := ⟨start, -((stop - start : Nat) : Int)⟩

/-- End of the edited text before the edit. -/
def oldStop (e : Edit) : Nat := e.pos + (-e.delta).toNat

/-- End of the edited text after the edit. -/
def newStop (e : Edit) : Nat := e.pos + e.delta.toNat

end Edit

/-- Number of boundaries at or before an offset; the one that governs it is the last of them. -/
def countThrough (entries : List Boundary) (offset : Nat) : Nat :=
  (entries.takeWhile fun b => b.offset ≤ offset).length

/-- Number of boundaries before an offset. -/
def countBefore (entries : List Boundary) (offset : Nat) : Nat :=
  (entries.takeWhile fun b => b.offset < offset).length

/-- The last of the ascending boundaries that is at or before an offset, else `b`. -/
def lastThrough (offset : Nat) : (b : Boundary) → (entries : List Boundary) → Boundary
  | b, [] => b
  | b, next :: rest => if next.offset ≤ offset then lastThrough offset next rest else b

/-- The last boundary at or before an offset. -/
def governing? (entries : List Boundary) (offset : Nat) : Option Boundary :=
  match entries with
  | [] => none
  | b :: rest => if b.offset ≤ offset then some (lastThrough offset b rest) else none

/-- The tag of the region over an offset, by its governing boundary. -/
def tagAt? (entries : List Boundary) (offset : Nat) : Option Nat :=
  (governing? entries offset).bind (·.tag)

/-- The boundaries before `cut`, back to the last close: what analysis may keep when the text
    from `cut` on has changed. -/
def keptBefore (entries : List Boundary) (cut : Nat) : List Boundary :=
  ((entries.takeWhile fun b => b.offset < cut).reverse.dropWhile (·.opens)).reverse

/-- Offset of the last boundary, zero without one. -/
def lastOffset (entries : List Boundary) : Nat := (entries.getLast?.map (·.offset)).getD 0

/-- The boundaries of the analyzed part of a text. -/
structure BoundaryTable where
  entries  : List Boundary := []
  /-- None once the whole text is analyzed. -/
  frontier : Option Frontier := some ⟨0, .outside⟩
  deriving DecidableEq, Repr, Inhabited

namespace BoundaryTable

def isComplete (t : BoundaryTable) : Bool := t.frontier.isNone

/-- Offset up to which the table holds, none when it is complete. -/
def frontierOffset? (t : BoundaryTable) : Option Nat := t.frontier.map (·.offset)

/-- Offset up to which the table holds, in a text of `len` chars. -/
def reach (t : BoundaryTable) (len : Nat) : Nat := t.frontierOffset?.getD len

/-- Keeps what lies before `cut`, back to the last close, and restarts there. -/
def truncate (t : BoundaryTable) (cut : Nat) : BoundaryTable :=
  let kept := keptBefore t.entries cut
  { entries := kept, frontier := some ⟨lastOffset kept, .outside⟩ }

end BoundaryTable

/-- Boundaries set aside by an edit, in offsets of the edited text, and the frontier of the table
    they are from. -/
structure SavedTail where
  entries  : List Boundary
  frontier : Option Frontier
  deriving DecidableEq, Repr

namespace SavedTail

/-- Sets aside what lies past an edit.  `oldStop` is the end of the edited text before the edit;
    boundaries at or before it are stale, and so is a table that had not got past it. -/
def capture (entries : List Boundary) (frontier : Option Frontier) (oldStop : Nat) (delta : Int) :
    Option SavedTail :=
  if frontier.any fun f => f.offset ≤ oldStop then none
  else
    let past := entries.dropWhile fun b => b.offset ≤ oldStop
    if past.isEmpty then none
    else
      some
        { entries := past.map (·.shifted delta)
          frontier := frontier.map fun f => { f with offset := shift f.offset delta } }

/-- Follows a later edit. -/
def adjust (s : SavedTail) (oldStop : Nat) (delta : Int) : Option SavedTail :=
  capture s.entries s.frontier oldStop delta

/-- Drops boundaries that fresh analysis has moved past; none when nothing is left. -/
def discardBefore (s : SavedTail) (offset : Nat) : Option SavedTail :=
  let left := s.entries.dropWhile fun b => b.offset < offset
  if left.isEmpty then none else some { s with entries := left }

/-- The boundaries behind one that is met again; none when it is not among them. -/
def behind? (s : SavedTail) (b : Boundary) : Option (List Boundary) :=
  match s.entries.dropWhile (· != b) with
  | [] => none
  | _ :: rest => some rest

end SavedTail

end Highlighter
