/-! # Char sets — sets of chars as sorted ranges

    A set is a list of code point ranges, both ends included, in ascending order with a
    gap between each two.  The operations keep that form, so that equal sets are equal
    lists but for ranges that differ in surrogates, which are no chars.  Large sets are
    written as steps: each one leaves a gap and takes a run of code points. -/

namespace Highlighter

/-- A set of chars. -/
structure CharSet where
  ranges : List (Nat × Nat) := []
  deriving DecidableEq, Repr, Inhabited

namespace CharSet

/-- The greatest code point. -/
def lastCode : Nat := 0x10FFFF

/-- The code point lies in one of the ascending ranges. -/
def inRanges : List (Nat × Nat) → Nat → Bool
  | [], _ => false
  | (lo, hi) :: rest, n => if n < lo then false else n ≤ hi || inRanges rest n

def contains (s : CharSet) (c : Char) : Bool := inRanges s.ranges c.toNat

def isEmpty (s : CharSet) : Bool := s.ranges.isEmpty

/-- Every char of the set is ASCII. -/
def isAscii (s : CharSet) : Bool := s.ranges.all fun r => r.2 < 128

/-! ## Building sets -/

/-- Joins ranges that meet or overlap, given by ascending start. -/
def coalesce : List (Nat × Nat) → List (Nat × Nat)
  | [] => []
  | [r] => [r]
  | (a, b) :: (c, d) :: rest =>
    if c ≤ b + 1 then coalesce ((a, max b d) :: rest) else (a, b) :: coalesce ((c, d) :: rest)
  termination_by rs => rs.length

def empty : CharSet := {}

/-- Every char. -/
def any : CharSet := ⟨[(0, lastCode)]⟩

def range (lo hi : Char) : CharSet := ⟨[(lo.toNat, hi.toNat)]⟩

/-- The set of one char. -/
def single (c : Char) : CharSet := range c c

/-- The set of ranges in any order. -/
def ofRanges (rs : List (Nat × Nat)) : CharSet :=
  ⟨coalesce (rs.mergeSort fun a b => a.1 ≤ b.1)⟩

/-- The set of code points in any order. -/
def ofCodes (ns : List Nat) : CharSet := ofRanges (ns.map fun n => (n, n))

/-- The only char of a set. -/
def single? (s : CharSet) : Option Char :=
  match s.ranges with
  | [(lo, hi)] => if lo = hi then some (Char.ofNat lo) else none
  | _ => none

/-! ## Set operations -/

def union (s t : CharSet) : CharSet :=
  ⟨coalesce (s.ranges.merge t.ranges fun a b => a.1 ≤ b.1)⟩

/-- The overlaps of two lists of ascending ranges. -/
def overlaps : List (Nat × Nat) → List (Nat × Nat) → List (Nat × Nat)
  | (a, b) :: xs, (c, d) :: ys =>
    let rest := if b < d then overlaps xs ((c, d) :: ys) else overlaps ((a, b) :: xs) ys
    if max a c ≤ min b d then (max a c, min b d) :: rest else rest
  | _, _ => []
  termination_by xs ys => xs.length + ys.length

def inter (s t : CharSet) : CharSet := ⟨overlaps s.ranges t.ranges⟩

/-- What ascending ranges leave out from `start` on. -/
def gaps (start : Nat) : List (Nat × Nat) → List (Nat × Nat)
  | [] => if start ≤ lastCode then [(start, lastCode)] else []
  | (a, b) :: rest => if start < a then (start, a - 1) :: gaps (b + 1) rest else gaps (b + 1) rest

/-- The range without surrogates at its ends. -/
def trimSurrogates (r : Nat × Nat) : Nat × Nat :=
  (if r.1 = 0xD800 then 0xE000 else r.1, if r.2 = 0xDFFF then 0xD7FF else r.2)

def compl (s : CharSet) : CharSet :=
  ⟨((gaps 0 s.ranges).map trimSurrogates).filter fun r => r.1 ≤ r.2⟩

def diff (s t : CharSet) : CharSet := s.inter t.compl

def symDiff (s t : CharSet) : CharSet := (s.union t).diff (s.inter t)

/-- The union of many sets. -/
def unions (ss : List CharSet) : CharSet := ofRanges (ss.flatMap ranges)

/-! ## Steps -/

/-- The value of a hexadecimal numeral; a char that is no digit counts as zero. -/
def hexValue (cs : List Char) : Nat :=
  cs.foldl (fun n c =>
    n * 16 + (if c.isDigit then c.toNat - 48 else if c.isUpper then c.toNat - 55 else 0)) 0

/-- A step in the notation `gap+extra*times`, all numbers hexadecimal, as gap, extra and times. -/
def step (token : String) : Nat × Nat × Nat :=
  let cs := token.toList
  let repeated := (cs.dropWhile (· != '*')).drop 1
  let taken := cs.takeWhile (· != '*')
  (hexValue (taken.takeWhile (· != '+')), hexValue ((taken.dropWhile (· != '+')).drop 1),
    if repeated.isEmpty then 1 else hexValue repeated)

/-- The ranges of a step taken `times` times from `start` on, added last first to those found;
    and where the next step starts. -/
def takeStep (gap extra : Nat) : (times : Nat) → Nat × List (Nat × Nat) → Nat × List (Nat × Nat)
  | 0, acc => acc
  | times + 1, (start, found) =>
    takeStep gap extra times
      (start + gap + extra + 1, (start + gap, start + gap + extra) :: found)

/-- The set written as steps from zero on: a step leaves a gap of as many code points as it
    says and takes one and the extra ones, once or as many times as it says. -/
def ofSteps (lines : List String) : CharSet :=
  let tokens := lines.flatMap fun line => (line.splitOn " ").filter (! ·.isEmpty)
  ⟨(tokens.foldl (fun acc token =>
    let (gap, extra, times) := step token
    takeStep gap extra times acc) (0, [])).2.reverse⟩

end CharSet

end Highlighter
