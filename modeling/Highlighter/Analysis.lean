import Highlighter.Boundary
import Highlighter.Document

/-! # Analysis — keeping the boundary table in step with the text

    `build` extends the table batch by batch.  An edit takes one of two ways: `update?`
    scans the edited lines anew and, when their boundaries come out as they were, moves the
    rest of the table along; otherwise `invalidate` cuts the table back to the edited line
    and sets the rest aside, and building stops as soon as it meets one of the boundaries
    set aside.  A scan starts at a close or at the start of the text, outside every region,
    and it sees the whole line around its start and one line past its end, so anchors and
    escapes look the same as in a scan of everything. -/

namespace Highlighter

/-- What one batch covered. -/
structure BuildReport where
  /-- Where highlighting may have changed. -/
  range     : Extent
  /-- Chars consumed. -/
  processed : Nat
  /-- Boundaries set aside were taken back. -/
  spliced   : Bool
  deriving DecidableEq, Repr

/-- The boundary table, and what an edit has set aside. -/
structure Analysis where
  table : BoundaryTable := {}
  saved : Option SavedTail := none
  deriving DecidableEq, Repr, Inhabited

/-- How the scan of a batch ends. -/
inductive BatchEnd where
  /-- At a position of the window, in a state, with what is still set aside. -/
  | reached (pos : Nat) (state : ScanState) (saved : Option SavedTail)
  /-- At a boundary set aside, with those behind it and their frontier. -/
  | spliced (offset : Nat) (behind : List Boundary) (frontier : Option Frontier)

namespace Analysis

/-- A fresh analysis: nothing scanned, nothing set aside. -/
def fresh : Analysis := {}

/-- End of the text to scan for a window that ends at the line start `stop`: one line more, so
    that conditions at `stop` see what follows it. -/
def lookahead (doc : Document) (stop : Nat) : Nat :=
  min (doc.lineEnd (min stop doc.length) + 1) doc.length

variable (lex : Lexicon)

/-- Scans a window of chars whose first has offset `base`.  A match that begins at `bound` or
    past it belongs to the next batch.  The scan ends early at a boundary set aside. -/
def scanBatch (window : Array Char) (base : Nat) (bound : Option Nat) (pos : Nat)
    (state : ScanState) (saved : Option SavedTail) : List Boundary × BatchEnd :=
  match _hs : lex.step window pos state with
  | none => ([], .reached pos state saved)
  | some s =>
    if bound.any fun b => b ≤ s.textStart then ([], .reached pos state saved)
    else
      let b := Boundary.into (base + s.offset) s.state
      let saved := saved.bind (·.discardBefore b.offset)
      match saved.bind (·.behind? b) with
      | some behind => ([b], .spliced b.offset behind (saved.bind (·.frontier)))
      | none =>
        let (found, stop) := scanBatch window base bound s.next s.state saved
        (b :: found, stop)
termination_by Lexicon.stepsLeft window pos state
decreasing_by exact Lexicon.stepsLeft_lt _hs

/-- End of a batch that starts at `start`: `limit` chars on, one at least, and then on to the
    next line start, so that no match is split. -/
def batchStop (doc : Document) (start limit : Nat) : Nat :=
  doc.snapForward (min (start + max limit 1) doc.length)

/-- Analyzes one batch from the frontier on; none when the table is complete. -/
def build (a : Analysis) (doc : Document) (limit : Nat) : Option (Analysis × BuildReport) :=
  match a.table.frontier with
  | none => none
  | some frontier =>
    let len := doc.length
    let start := min frontier.offset len
    if !lex.hasRegions then
      some ({ table := { a.table with frontier := none }, saved := none },
        { range := ⟨start, len⟩, processed := len - start, spliced := false })
    else
      let stop := batchStop doc start limit
      let base := doc.lineStart start
      let window := doc.slice ⟨base, lookahead doc stop⟩
      -- at the end of the text there is no next batch to leave a match to
      let bound := if stop < len then some (stop - base) else none
      match scanBatch lex window base bound (start - base) frontier.state a.saved with
      | (found, .spliced offset behind frontier) =>
        let entries := a.table.entries ++ found ++ behind
        some ({ table := { entries, frontier }, saved := none },
          { range := ⟨start, max offset start⟩, processed := offset - start, spliced := true })
      | (found, .reached pos state saved) =>
        -- a match that straddles the end of the batch takes the frontier past it
        let reached := max (base + pos) stop
        let entries := a.table.entries ++ found
        let report : BuildReport :=
          { range := ⟨start, reached⟩, processed := reached - start, spliced := false }
        if len ≤ reached then
          some ({ table := { entries, frontier := none }, saved := none }, report)
        else
          some ({ table := { entries, frontier := some ⟨reached, state⟩ }
                  saved := saved.bind (·.discardBefore reached) }, report)

/-! ## Edits -/

/-- Cuts the table back to the edited line and sets aside what lies past the edit; an edit past
    the frontier only moves what is set aside already. -/
def invalidate (a : Analysis) (doc : Document) (e : Edit) : Analysis :=
  let past := fun o => a.table.frontier.any fun f => f.offset ≤ o
  let saved :=
    if past e.pos then a.saved.bind (·.adjust e.oldStop e.delta)
    else SavedTail.capture a.table.entries a.table.frontier e.oldStop e.delta
  let cut := doc.lineStart e.pos
  { table := if past cut then a.table else a.table.truncate cut, saved }

/-- Where an edit takes a boundary; none for one inside deleted text, and for a close whose match
    ended where the deletion did. -/
def moved? (e : Edit) (b : Boundary) : Option Nat :=
  if b.offset < e.pos ∨ (e.delta < 0 ∧ b.offset = e.pos) then some b.offset
  else if e.oldStop < b.offset ∨ (b.offset = e.oldStop ∧ (0 < e.delta ∨ b.opens)) then
    some (shift b.offset e.delta)
  else none

/-- The boundaries that a scan up to `stop` should find if the edit changes none, `stop` being none
    when the scan runs to the end of the text.  A close at `stop` counts, as its match may begin
    before; none when the edit takes a boundary away. -/
def expected? (e : Edit) (stop : Option Nat) : List Boundary → Option (List Boundary)
  | [] => some []
  | b :: rest =>
    match moved? e b with
    | none => none
    | some offset =>
      if stop.any fun w => w < offset || (offset == w && b.opens) then some []
      else (expected? e stop rest).map ({ b with offset } :: ·)

/-- The scan finds the expected boundaries and no others, within `budget` steps and with no
    delimiter text touching the edit. -/
def confirms (window : Array Char) (base : Nat) (bound : Option Nat) (e : Edit) :
    (budget pos : Nat) → ScanState → List Boundary → Bool
  | 0, _, _, _ => false
  | budget + 1, pos, state, expected =>
    match lex.step window pos state with
    | none => expected.isEmpty
    | some s =>
      if bound.any fun b => b ≤ s.textStart then expected.isEmpty
      -- delimiter text that the edit touches may have changed its meaning
      else if base + s.textStart ≤ e.newStop ∧ e.pos ≤ base + s.next then false
      else
        match expected with
        | [] => false
        | b :: rest =>
          b == Boundary.into (base + s.offset) s.state &&
            confirms window base bound e budget s.next s.state rest

/-- Absorbs an edit that leaves the boundaries of the edited lines as they were; none when it does
    not, when the table has not got past the edited lines, or when `budget` steps cannot tell. -/
def update? (a : Analysis) (doc : Document) (e : Edit) (budget : Nat) : Option Analysis :=
  let windowStop := doc.snapForward (doc.lineEnd e.newStop)
  let short := a.table.frontier.any fun f =>
    f.offset ≤ e.oldStop || shift f.offset e.delta ≤ windowStop
  if short then none
  else
    let kept := keptBefore a.table.entries (doc.lineStart e.pos)
    let rest := a.table.entries.drop kept.length
    let restart := lastOffset kept
    -- on the last line every boundary ahead lies inside the window
    let stop := if windowStop < doc.length then some windowStop else none
    match expected? e stop rest with
    | none => none
    | some expected =>
      let base := doc.lineStart restart
      let window := doc.slice ⟨base, lookahead doc windowStop⟩
      let bound := stop.map (· - base)
      if confirms lex window base bound e budget (restart - base) .outside expected then
        some
          { table :=
              { entries := kept ++ expected ++
                  (rest.drop expected.length).map (·.shifted e.delta)
                frontier := a.table.frontier.map
                  fun f => { f with offset := shift f.offset e.delta } }
            saved := a.saved.bind (·.adjust e.oldStop e.delta) }
      else none

end Analysis

end Highlighter
