import Highlighter.Chars.Set

/-! # UTF-8 — chars as bytes, and char sets as sequences of byte ranges

    A char set is the union of a few products of byte ranges: its ranges are cut where the
    number of bytes changes and where a byte that follows would have to start over, until
    the bytes of every piece range on their own. -/

namespace Highlighter.Utf8

/-- The bytes of a code point. -/
def bytes (n : Nat) : List Nat :=
  if n < 0x80 then [n]
  else if n < 0x800 then [0xC0 + n / 64, 0x80 + n % 64]
  else if n < 0x10000 then [0xE0 + n / 4096, 0x80 + n / 64 % 64, 0x80 + n % 64]
  else [0xF0 + n / 262144, 0x80 + n / 4096 % 64, 0x80 + n / 64 % 64, 0x80 + n % 64]

/-- Cuts a range behind a code point. -/
def cutAfter (n : Nat) (r : Nat × Nat) : List (Nat × Nat) :=
  if r.1 ≤ n ∧ n < r.2 then [(r.1, n), (n + 1, r.2)] else [r]

/-- Cuts a range into the end of a block, whole blocks, and the start of a block; a range inside
    one block stays whole. -/
def cutBlocks (size : Nat) (r : Nat × Nat) : List (Nat × Nat) :=
  if r.1 / size = r.2 / size then [r]
  else
    let wholeStart := (r.1 + size - 1) / size * size
    let wholeStop := (r.2 + 1) / size * size
    let pieces := [(r.1, wholeStart), (wholeStart, wholeStop), (wholeStop, r.2 + 1)]
    (pieces.filter fun p => p.1 < p.2).map fun p => (p.1, p.2 - 1)

/-- The pieces of a range, ascending, in which every byte ranges on its own. -/
def pieces (r : Nat × Nat) : List (Nat × Nat) :=
  let chars := ((cutAfter 0xD7FF r).flatMap (cutAfter 0xDFFF)).filter fun p =>
    p.1 < 0xD800 ∨ 0xDFFF < p.1
  let equalLength := ((chars.flatMap (cutAfter 0x7F)).flatMap (cutAfter 0x7FF)).flatMap
    (cutAfter 0xFFFF)
  equalLength.flatMap fun p =>
    if p.2 < 0x80 then [p]
    else ((cutBlocks 64 p).flatMap (cutBlocks 4096)).flatMap (cutBlocks 262144)

/-- The set as sequences of byte ranges, ascending. -/
def sequences (s : CharSet) : List (List (Nat × Nat)) :=
  (s.ranges.flatMap pieces).map fun p => (bytes p.1).zip (bytes p.2)

end Highlighter.Utf8
