import Highlighter.Extent

/-! # Readable texts — line arithmetic over any source of chars

    A text is readable when its length is known and it can be asked for single chars and
    for slices.  That is enough to find lines: from an offset, walk back to just after
    the newline before it, or forward to the newline that ends its line.  A text with a
    better way of its own overrides the two walks. -/

namespace Highlighter

/-- The offset just after the last newline before `pos`, found by walking back. -/
def walkBack (charAt? : Nat → Option Char) : Nat → Nat
  | 0 => 0
  | p + 1 => if charAt? p = some '\n' then p + 1 else walkBack charAt? p

/-- The first newline at or after `pos`, looking at `room` chars at most. -/
def walkOn (charAt? : Nat → Option Char) : (room pos : Nat) → Nat
  | 0, pos => pos
  | room + 1, pos => if charAt? pos = some '\n' then pos else walkOn charAt? room (pos + 1)

/-- A source of chars by offset. -/
class Readable (δ : Type) where
  /-- Number of chars. -/
  length : δ → Nat
  /-- The char at an offset, none past the end. -/
  charAt? : δ → Nat → Option Char
  /-- The chars of an extent, as far as the text has them. -/
  slice : δ → Extent → Array Char
  /-- Offset of the first char of the line that holds an offset. -/
  lineStart : δ → Nat → Nat := fun d o => walkBack (charAt? d) (min o (length d))
  /-- Offset of the newline that ends the line of an offset, or the length on the last line. -/
  lineEnd : δ → Nat → Nat := fun d o =>
    walkOn (charAt? d) (length d - min o (length d)) (min o (length d))

namespace Readable

variable {δ : Type} [Readable δ]

/-- The least line start at or after `o`, or the length. -/
def snapForward (d : δ) (o : Nat) : Nat :=
  if o = 0 ∨ length d ≤ o ∨ charAt? d (o - 1) = some '\n' then min o (length d)
  else min (lineEnd d o + 1) (length d)

/-- Whole lines around `e`, with their newlines.  The line that holds the end is always taken
    in, so an empty extent covers its line. -/
def snapToLines (d : δ) (e : Extent) : Extent :=
  let start := lineStart d (min e.start (length d))
  let stop := min (lineEnd d (min (max e.stop e.start) (length d)) + 1) (length d)
  ⟨start, max stop start⟩

end Readable

/-- A text with nothing but its chars; lines are found by walking. -/
structure PlainText where
  chars : Array Char

instance : Readable PlainText where
  length t := t.chars.size
  charAt? t o := t.chars[o]?
  slice t e := t.chars.extract e.start e.stop

end Highlighter
