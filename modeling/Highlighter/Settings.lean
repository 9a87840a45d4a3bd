/-! # Settings — the knobs of a session -/

namespace Highlighter

structure Settings where
  /-- Target length of a background quantum, in microseconds. -/
  sliceMicros   : Nat := 30000
  /-- Chars analyzed in the first quantum. -/
  initialBatch  : Nat := 40960
  /-- Floor of the batch size. -/
  minimumBatch  : Nat := 10240
  /-- Steps that absorbing an edit may take. -/
  stepBudget    : Nat := 64
  /-- Reach of bracket matching at the cursor. -/
  bracketReach  : Nat := 10000
  /-- Highlighting starts switched on. -/
  highlight     : Bool := true
  deriving DecidableEq, Repr, Inhabited

end Highlighter
