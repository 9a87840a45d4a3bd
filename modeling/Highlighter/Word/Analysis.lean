import Highlighter.Analysis
import Highlighter.Word

/-! # Analysis in words — lines, batches and absorbed edits -/

namespace Highlighter.Word

/-! ## Lines -/

/-- Just past the end of a line, as far as the document goes. -/
def pastLine (doc : Document) (o : Nat) : Checked Nat := do
  return min (← add (doc.lineEnd o) 1) doc.length

/-- The least line start at or after `o`, or the length. -/
def snapForward (doc : Document) (o : Nat) : Checked Nat :=
  if o = 0 ∨ doc.length ≤ o then return min o doc.length
  else do
    if doc.charAt? (← sub o 1) = some '\n' then return min o doc.length
    else pastLine doc o

/-- Whole lines around `e`. -/
def snapToLines (doc : Document) (e : Extent) : Checked Extent := do
  let start := doc.lineStart (min e.start doc.length)
  let stop ← pastLine doc (min (max e.stop e.start) doc.length)
  return ⟨start, max stop start⟩

/-- End of the text to scan for a window that ends at the line start `stop`. -/
def lookahead (doc : Document) (stop : Nat) : Checked Nat := pastLine doc (min stop doc.length)

/-! ## Batches -/

variable (lex : Lexicon)

/-- Scans a window of chars whose first has offset `base`. -/
def scanBatch (window : Array Char) (base : Nat) (bound : Option Nat) (pos : Nat)
    (state : ScanState) (saved : Option SavedTail) : Checked (List Boundary × BatchEnd) :=
  match _hs : lex.step window pos state with
  | none => return ([], .reached pos state saved)
  | some s =>
    if bound.any fun b => b ≤ s.textStart then return ([], .reached pos state saved)
    else do
      let offset ← add base s.offset
      let b := Boundary.into offset s.state
      let saved := saved.bind (·.discardBefore b.offset)
      match saved.bind (·.behind? b) with
      | some behind => return ([b], .spliced b.offset behind (saved.bind (·.frontier)))
      | none =>
        let (found, stop) ← scanBatch window base bound s.next s.state saved
        return (b :: found, stop)
termination_by Lexicon.stepsLeft window pos state
decreasing_by exact Lexicon.stepsLeft_lt _hs

/-- End of a batch that starts at `start`. -/
def batchStop (doc : Document) (start limit : Nat) : Checked Nat := do
  snapForward doc (min (← add start (max limit 1)) doc.length)

/-- Analyzes one batch from the frontier on; none when the table is complete. -/
def build (a : Analysis) (doc : Document) (limit : Nat) :
    Checked (Option (Analysis × BuildReport)) :=
  match a.table.frontier with
  | none => return none
  | some frontier => do
    let len := doc.length
    let start := min frontier.offset len
    if !lex.hasRegions then
      let processed ← sub len start
      return some ({ table := { a.table with frontier := none }, saved := none },
        { range := ⟨start, len⟩, processed, spliced := false })
    else
      let stop ← batchStop doc start limit
      let base := doc.lineStart start
      let window := doc.slice ⟨base, ← lookahead doc stop⟩
      let windowStop ← sub stop base
      let bound := if stop < len then some windowStop else none
      match ← scanBatch lex window base bound (← sub start base) frontier.state a.saved with
      | (found, .spliced offset behind frontier) =>
        let entries := a.table.entries ++ found ++ behind
        return some ({ table := { entries, frontier }, saved := none },
          { range := ⟨start, max offset start⟩, processed := offset - start, spliced := true })
      | (found, .reached pos state saved) =>
        let reached := max (← add base pos) stop
        let entries := a.table.entries ++ found
        let processed ← sub reached start
        let report : BuildReport := { range := ⟨start, reached⟩, processed, spliced := false }
        if len ≤ reached then
          return some ({ table := { entries, frontier := none }, saved := none }, report)
        else
          return some ({ table := { entries, frontier := some ⟨reached, state⟩ }
                         saved := saved.bind (·.discardBefore reached) }, report)

/-! ## Edits -/

/-- Cuts the table back to the edited line and sets aside what lies past the edit. -/
def invalidate (a : Analysis) (doc : Document) (e : Edit) : Checked Analysis := do
  let oldStop ← add e.pos (-e.delta).toNat
  let past := fun o => a.table.frontier.any fun f => f.offset ≤ o
  let saved :=
    if past e.pos then a.saved.bind (·.adjust oldStop e.delta)
    else SavedTail.capture a.table.entries a.table.frontier oldStop e.delta
  let cut := doc.lineStart e.pos
  return { table := if past cut then a.table else a.table.truncate cut, saved }

/-- The scan finds the expected boundaries and no others, within `budget` steps and with no
    delimiter text touching the edit. -/
def confirms (window : Array Char) (base : Nat) (bound : Option Nat) (e : Edit) :
    (budget pos : Nat) → ScanState → List Boundary → Checked Bool
  | 0, _, _, _ => return false
  | budget + 1, pos, state, expected =>
    match lex.step window pos state with
    | none => return expected.isEmpty
    | some s =>
      if bound.any fun b => b ≤ s.textStart then return expected.isEmpty
      else do
        let textStart ← add base s.textStart
        let offset ← add base s.offset
        let textStop ← add base s.next
        if textStart ≤ e.newStop ∧ e.pos ≤ textStop then return false
        else
          match expected with
          | [] => return false
          | b :: rest =>
            if b == Boundary.into offset s.state then
              confirms window base bound e budget s.next s.state rest
            else return false

/-- Absorbs an edit that leaves the boundaries of the edited lines as they were. -/
def update? (a : Analysis) (doc : Document) (e : Edit) (budget : Nat) :
    Checked (Option Analysis) := do
  let oldStop ← add e.pos (-e.delta).toNat
  let newStop ← add e.pos e.delta.toNat
  let windowStop ← snapForward doc (doc.lineEnd newStop)
  let short := a.table.frontier.any fun f =>
    f.offset ≤ oldStop || shift f.offset e.delta ≤ windowStop
  if short then return none
  else
    let kept := keptBefore a.table.entries (doc.lineStart e.pos)
    let rest := a.table.entries.drop kept.length
    let restart := lastOffset kept
    let stop := if windowStop < doc.length then some windowStop else none
    match Analysis.expected? e stop rest with
    | none => return none
    | some expected =>
      let base := doc.lineStart restart
      let window := doc.slice ⟨base, ← lookahead doc windowStop⟩
      let windowLength ← sub windowStop base
      let bound := stop.map fun _ => windowLength
      if ← confirms lex window base bound e budget (← sub restart base) .outside expected then
        return some
          { table :=
              { entries := kept ++ expected ++
                  (rest.drop expected.length).map (·.shifted e.delta)
                frontier := a.table.frontier.map
                  fun f => { f with offset := shift f.offset e.delta } }
            saved := a.saved.bind (·.adjust oldStop e.delta) }
      else return none

end Highlighter.Word
