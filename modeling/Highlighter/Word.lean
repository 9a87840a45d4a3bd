import Highlighter.Extent

/-! # Words — arithmetic of a 64-bit machine

    Offsets and counts of a machine are 64-bit words.  A sum that does not fit in a word, and
    a difference that would be negative, stop it; so each operation of this arithmetic gives
    its result, or tells what did not fit.  With the same operations at every step, the work of
    a session in words is its work in numbers, until something does not fit. -/

namespace Highlighter

/-- The number of words of 64 bits; words are less. -/
def wordLimit : Nat := 0x10000000000000000

/-- Arithmetic that does not fit. -/
inductive Overflow where
  | sum (a b : Nat)
  | difference (a b : Nat)
  | product (a b : Nat)
  deriving DecidableEq, Repr

/-- A result, unless some arithmetic on the way has not fit. -/
abbrev Checked := Except Overflow

namespace Word

def add (a b : Nat) : Checked Nat := if a + b < wordLimit then .ok (a + b) else .error (.sum a b)

def sub (a b : Nat) : Checked Nat := if b ≤ a then .ok (a - b) else .error (.difference a b)

/-- A product of two words, in two words. -/
def mulWide (a b : Nat) : Checked Nat :=
  if a * b < wordLimit * wordLimit then .ok (a * b) else .error (.product a b)

/-- A sum that stays at the greatest word rather than not fit. -/
def addCapped (a b : Nat) : Nat := min (a + b) (wordLimit - 1)

/-! ## Extents under edits -/

/-- Where `e` lies once `len` chars stand at `pos`. -/
def afterInsert (e : Extent) (pos len : Nat) : Checked Extent :=
  if pos ≤ e.start then do return ⟨← add e.start len, ← add e.stop len⟩
  else if pos < e.stop then do return ⟨e.start, ← add e.stop len⟩
  else return e

/-- Where an offset lies once the chars from `start` up to `stop` are gone. -/
def offsetAfterDelete (start stop p : Nat) : Checked Nat :=
  if p ≤ start then return p
  else if stop ≤ p then sub p (stop - start)
  else return start

/-- Where `e` lies once the chars from `start` up to `stop` are gone. -/
def afterDelete (e : Extent) (start stop : Nat) : Checked Extent := do
  return ⟨← offsetAfterDelete start stop e.start, ← offsetAfterDelete start stop e.stop⟩

end Word

end Highlighter
