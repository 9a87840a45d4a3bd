/-! # Pacing — how much to analyze in one quantum

    Background analysis runs in quanta.  The batch of the next quantum is the number of
    chars that, at the rate of the last one, fills the time slice; it never falls below
    a floor, and it is a machine word. -/

namespace Highlighter

/-- The greatest batch: the greatest 64-bit word. -/
def greatestBatch : Nat := 0xFFFFFFFFFFFFFFFF

/-- Batch size, its floor, the time slice in microseconds, and whether work is scheduled. -/
structure Pacer where
  batch   : Nat
  minimum : Nat
  slice   : Nat
  armed   : Bool := false
  deriving DecidableEq, Repr, Inhabited

namespace Pacer

/-- The first batch is the one asked for, unless it lies below the floor. -/
def start (initial minimum slice : Nat) : Pacer := { batch := max initial minimum, minimum, slice }

def arm (p : Pacer) : Pacer := { p with armed := true }

def cancel (p : Pacer) : Pacer := { p with armed := false }

/-- Whole microseconds in a span of nanoseconds, at least one. -/
def micros (nanoseconds : Nat) : Nat := max (nanoseconds / 1000) 1

/-- Sizes the next batch from a quantum that took `nanoseconds` for `processed` chars; an idle
    quantum says nothing. -/
def record (p : Pacer) (processed nanoseconds : Nat) : Pacer :=
  if processed = 0 then p
  else
    { p with
      batch := max (min (processed * p.slice / micros nanoseconds) greatestBatch) p.minimum }

end Pacer

end Highlighter
