import Highlighter.Analysis
import Highlighter.Bracket
import Highlighter.Pacing
import Highlighter.Paint
import Highlighter.Rendering
import Highlighter.Settings
import Highlighter.Staleness

/-! # Sessions — highlighting one document while it changes

    A session keeps the boundary table in step with the text, knows which ranges are stale,
    and holds the spans painted so far.  The owner of the text reports every edit right
    after making it.  Analysis and rendering are lazy: they happen when spans are asked
    for, or in background quanta.  Whoever listens is told each range that may look
    different from now on. -/

namespace Highlighter

/-- Highlighting state of one document. -/
structure Session where
  settings     : Settings
  lexicon      : Lexicon := .empty
  analysis     : Analysis := .fresh
  staleness    : Staleness := {}
  paint        : Paint := .empty
  pacer        : Pacer
  /-- Listeners connected, in order. -/
  listeners    : List Nat := []
  nextListener : Nat := 0
  enabled      : Bool
  /-- Ranges told to listeners and not collected yet, in order. -/
  mail         : List (Nat × Extent) := []
  deriving Inhabited

namespace Session

/-- A session with no grammar. -/
def start (settings : Settings) : Session :=
  { settings
    pacer := .start settings.initialBatch settings.minimumBatch settings.sliceMicros
    enabled := settings.highlight }

/-! ## Listeners -/

/-- Tells every listener a range whose highlighting may have changed. -/
def notify (s : Session) (e : Extent) : Session :=
  { s with mail := s.mail ++ s.listeners.map (·, e) }

/-- Connects a listener and answers its number. -/
def connect (s : Session) : Session × Nat :=
  ({ s with listeners := s.listeners ++ [s.nextListener], nextListener := s.nextListener + 1 },
    s.nextListener)

/-- Disconnects a listener and answers whether it was connected. -/
def disconnect (s : Session) (listener : Nat) : Session × Bool :=
  ({ s with listeners := s.listeners.filter (· != listener) }, s.listeners.contains listener)

/-- Hands out the ranges told since the last collection. -/
def collect (s : Session) : Session × List (Nat × Extent) := ({ s with mail := [] }, s.mail)

/-- Marks a range stale and tells the listeners. -/
def disturb (s : Session) (e : Extent) : Session :=
  notify { s with staleness := s.staleness.mark e } e

/-! ## Grammar and edits -/

/-- Drops all analysis and paint, and starts over. -/
def rebuild (s : Session) (doc : Document) : Session :=
  let whole : Extent := ⟨0, doc.length⟩
  let s := { s with
    analysis := .fresh, paint := .empty, staleness := s.staleness.clearDirty }
  let s :=
    if s.enabled then { s with staleness := s.staleness.mark whole, pacer := s.pacer.arm } else s
  s.notify whole

/-- Switches to a grammar and starts over. -/
def setGrammar (s : Session) (doc : Document) (g : Grammar) : Session :=
  rebuild { s with lexicon := .ofGrammar g } doc

/-- Brings the analysis in step with an edit: absorbed when its boundaries stay as they were, else
    cut back and scheduled. -/
def repair (s : Session) (doc : Document) (e : Edit) : Session :=
  if s.lexicon.hasRegions then
    match s.analysis.update? s.lexicon doc e s.settings.stepBudget with
    | some a => { s with analysis := a }
    | none => { s with analysis := s.analysis.invalidate doc e, pacer := s.pacer.arm }
  else s

/-- The edited lines are stale, and the table follows. -/
def applyEdit (s : Session) (doc : Document) (e : Edit) : Session :=
  if s.enabled then (s.repair doc e).disturb (doc.snapToLines ⟨e.pos, e.newStop⟩) else s

/-- The document has gained `count` chars at `pos`. -/
def onInsert (s : Session) (doc : Document) (pos count : Nat) : Session :=
  if count = 0 then s
  else
    applyEdit
      { s with
        staleness := s.staleness.afterInsert pos count
        paint := s.paint.afterInsert pos count }
      doc (.insertion pos count)

/-- The document has lost the chars from `start` up to `stop`. -/
def onDelete (s : Session) (doc : Document) (start stop : Nat) : Session :=
  if stop ≤ start then s
  else
    applyEdit
      { s with
        staleness := s.staleness.afterDelete start stop
        paint := s.paint.afterDelete start stop }
      doc (.deletion start stop)

/-! ## Analysis on demand -/

/-- Lines that were analyzed just now must be rendered again. -/
def analyzed (s : Session) (doc : Document) (range : Extent) : Session :=
  if range.isEmpty then s else s.disturb (doc.snapToLines range)

/-- Analyzes one batch of the present size; none when the table is complete. -/
def analyzeBatch (s : Session) (doc : Document) : Option (Session × BuildReport) :=
  (s.analysis.build s.lexicon doc s.pacer.batch).map fun (a, report) =>
    ({ s with analysis := a }, report)

/-- Analyzes until the table holds up to `upto`, in `rounds` batches at most. -/
def analyzeWithin (doc : Document) (upto : Nat) : (rounds : Nat) → Session → Session
  | 0, s => s
  | rounds + 1, s =>
    if s.analysis.table.frontier.any fun f => f.offset < upto then
      match s.analyzeBatch doc with
      | some (s, report) => analyzeWithin doc upto rounds (s.analyzed doc report.range)
      | none => s
    else s

/-- Batches that bring any table to its end: each moves on by a char, and taking back what was set
    aside may start that over once. -/
def roundLimit (doc : Document) : Nat := 2 * doc.length + 4

/-- Analyzes until the table holds up to `upto`. -/
def ensureAnalyzed (s : Session) (doc : Document) (upto : Nat) : Session :=
  analyzeWithin doc upto (roundLimit doc) s

/-! ## Rendering on demand -/

/-- Renders one stale part into the paint and answers what that covered: whole lines as far as
    analysis has got, widened to whole regions. -/
def renderPart (lex : Lexicon) (table : BoundaryTable) (doc : Document) (paint : Paint)
    (part : Extent) : Paint × Extent :=
  let reach := table.reach doc.length
  let lines := doc.snapToLines part
  -- no further than analysis has got, but all of the part
  let lines : Extent := ⟨lines.start, max (min lines.stop reach) part.stop⟩
  let covered := widenToRegions table.entries lines reach
  (paint.replace covered (render lex doc table.entries covered), covered)

/-- Renders the stale parts of a range that is analyzed already. -/
def renderStale (s : Session) (doc : Document) (range : Extent) : Session :=
  let (staleness, paint, _) :=
    s.staleness.refresh range (renderPart s.lexicon s.analysis.table doc) s.paint
  { s with staleness, paint }

/-- Brings every span inside a range up to date. -/
def ensureHighlighted (s : Session) (doc : Document) (range : Extent) : Session :=
  if s.enabled then (s.ensureAnalyzed doc range.stop).renderStale doc range else s

/-- The spans of a range, after rendering what is stale. -/
def highlight (s : Session) (doc : Document) (range : Extent) : Session × List Span :=
  if s.enabled then
    let range := range.clampTo doc.length
    let s := s.ensureHighlighted doc (doc.snapToLines range)
    (s, s.paint.query range)
  else (s, [])

/-! ## Background work -/

/-- Adds a range that background work keeps highlighted. -/
def request (s : Session) (range : Extent) : Session :=
  { s with staleness := s.staleness.request range }

def clearRequested (s : Session) : Session := { s with staleness := s.staleness.clearRequested }

/-- Background work is scheduled, or wanted ranges are stale. -/
def hasPendingWork (s : Session) : Bool :=
  s.enabled && (s.pacer.armed || !s.staleness.pending.isEmpty)

/-- The scheduled part of a quantum: one batch, sized by how long it took; done for good once the
    table is complete. -/
def analyzeScheduled (s : Session) (doc : Document) (nanoseconds : Nat) : Session :=
  if s.pacer.armed then
    let s := match s.analyzeBatch doc with
      | some (s, report) =>
        analyzed { s with pacer := s.pacer.record report.processed nanoseconds } doc report.range
      | none => s
    if s.analysis.table.isComplete then { s with pacer := s.pacer.cancel } else s
  else s

/-- Renders the stale parts of the wanted ranges, as far as analysis has got. -/
def renderRequested (s : Session) (doc : Document) : Session :=
  let reach := s.analysis.table.reach doc.length
  s.staleness.pending.foldl
    (fun s range =>
      let stop := min range.stop reach
      if range.start < stop then s.renderStale doc ⟨range.start, stop⟩ else s)
    s

/-- One background quantum, with the time that its analysis took; answers whether work is left. -/
def runBackground (s : Session) (doc : Document) (nanoseconds : Nat) : Session × Bool :=
  if s.enabled then
    let s := (s.analyzeScheduled doc nanoseconds).renderRequested doc
    (s, s.hasPendingWork)
  else (s, false)

/-- Runs quanta of the same length until no work is left, and counts them; none when `quanta` of
    them do not suffice. -/
def drain (doc : Document) (nanoseconds : Nat) : (quanta : Nat) → Session → Option (Session × Nat)
  | 0, s => if s.hasPendingWork then none else some (s, 0)
  | quanta + 1, s =>
    if s.hasPendingWork then
      match s.runBackground doc nanoseconds with
      | (s, true) => (drain doc nanoseconds quanta s).map fun (s, n) => (s, n + 1)
      | (s, false) => some (s, 1)
    else some (s, 0)

/-! ## Switching and look-ups -/

/-- Turns highlighting on, which starts over, or off, which drops all paint and pending work. -/
def setEnabled (s : Session) (doc : Document) (enabled : Bool) : Session :=
  if enabled = s.enabled then s
  else
    let s := { s with enabled }
    if enabled then s.rebuild doc
    else
      notify
        { s with
          pacer := s.pacer.cancel, paint := .empty, staleness := s.staleness.clearDirty }
        ⟨0, doc.length⟩

/-- Offset of the bracket that matches the one before `pos`, within `limit` chars; brackets in
    another region than the first do not count. -/
def matchingBracket (s : Session) (doc : Document) (pos : Nat) (limit : Option Nat) :
    Session × Option Nat :=
  if s.enabled && s.lexicon.hasRegions then
    let len := doc.length
    let upto := match limit with
      | some l => min (pos + l) len
      | none => len
    let s := s.ensureAnalyzed doc upto
    (s, matchingBracket? doc pos limit (tagAt? s.analysis.table.entries))
  else (s, matchingBracket? doc pos limit fun _ => ())

end Session

end Highlighter
