import Highlighter.Session
import Highlighter.Word.Analysis

/-! # Sessions in words — staleness, paint, work on demand and in the background -/

namespace Highlighter.Word

variable {σ : Type}

/-! ## Sets and paint under edits -/

/-- The set once `len` chars stand at `pos`. -/
def setAfterInsert (s : ExtentSet) (pos len : Nat) : Checked ExtentSet := do
  return ⟨← s.extents.mapM fun e => afterInsert e pos len⟩

/-- The set once the chars from `start` up to `stop` are gone. -/
def setAfterDelete (s : ExtentSet) (start stop : Nat) : Checked ExtentSet :=
  if stop ≤ start then return s
  else s.extents.foldlM (fun t e => do return t.insert (← afterDelete e start stop)) .empty

/-- The paint once `len` chars stand at `pos`. -/
def paintAfterInsert (p : Paint) (pos len : Nat) : Checked Paint := do
  return ⟨← p.spans.mapM fun s => do return s.moved (← afterInsert s.extent pos len)⟩

/-- The paint once the chars from `start` up to `stop` are gone. -/
def paintAfterDelete (p : Paint) (start stop : Nat) : Checked Paint :=
  if stop ≤ start then return p
  else do
    let moved ← p.spans.mapM fun s => do return s.moved (← afterDelete s.extent start stop)
    return ⟨moved.filter fun s => !s.isEmpty⟩

def staleAfterInsert (t : Staleness) (pos len : Nat) : Checked Staleness := do
  let dirty ← setAfterInsert t.dirty pos len
  let requested ← setAfterInsert t.requested pos len
  return { t with dirty, requested }

def staleAfterDelete (t : Staleness) (start stop : Nat) : Checked Staleness := do
  let dirty ← setAfterDelete t.dirty start stop
  let requested ← setAfterDelete t.requested start stop
  return { t with dirty, requested }

/-! ## Rendering -/

/-- One stale part: skipped when nothing in it is dirty any more, else rendered and clean. -/
def refreshPart (render : σ → Extent → Checked (σ × Extent)) (acc : Staleness × σ × Nat)
    (part : Extent) : Checked (Staleness × σ × Nat) :=
  let (t, s, count) := acc
  if t.dirty.overlaps part then do
    let (s', covered) ← render s part
    let renders ← add t.renders 1
    let count ← add count 1
    return ({ t with dirty := (t.dirty.erase part).erase covered, renders }, s', count)
  else return acc

/-- Renders every dirty part of `e` and answers how many passes that took. -/
def refresh (t : Staleness) (e : Extent) (render : σ → Extent → Checked (σ × Extent)) (s : σ) :
    Checked (Staleness × σ × Nat) :=
  (t.dirty.within e).foldlM (refreshPart render) (t, s, 0)

/-- Grows `range` so that it neither starts nor ends inside a region. -/
def widenToRegions (entries : List Boundary) (range : Extent) (limit : Nat) : Checked Extent := do
  let start := match governing? entries range.start with
    | some b => if b.opens then b.offset else range.start
    | none => range.start
  if range.stop ≤ range.start then return ⟨start, max (min range.stop limit) range.stop⟩
  else
    let last ← sub range.stop 1
    let stop := match governing? entries last with
      | some b =>
        if b.opens then ((entries.drop (countThrough entries last)).head?.map (·.offset)).getD limit
        else range.stop
      | none => range.stop
    return ⟨start, max (min stop limit) range.stop⟩

variable (lex : Lexicon) (doc : Document)

/-- Token spans of text outside any region. -/
def renderTokens (range : Extent) : Checked (List Span) :=
  if lex.tokens.isEmpty then return []
  else do
    let base := doc.lineStart range.start
    let window := doc.slice ⟨base, range.stop⟩
    (tokens window lex.tokens (← sub range.start base)).mapM fun t => do
      return ⟨← add base t.extent.start, ← add base t.extent.stop,
        (lex.tokens[t.pattern]?.map (·.style)).getD ""⟩

/-- Spans of a range that no boundary divides. -/
def renderPiece (tag : Option Nat) (range : Extent) : Checked (List Span) :=
  match tag.bind lex.region? with
  | some d => return [⟨range.start, range.stop, d.style⟩]
  | none => renderTokens lex doc range

/-- Spans from `pos` up to `stop`. -/
def renderFrom (stop : Nat) :
    (ahead : List Boundary) → (tag : Option Nat) → (pos : Nat) → Checked (List Span)
  | [], tag, pos => if pos < stop then renderPiece lex doc tag ⟨pos, stop⟩ else return []
  | b :: ahead, tag, pos =>
    if pos < stop then do
      let next := min b.offset stop
      let here ← if pos < next then renderPiece lex doc tag ⟨pos, next⟩ else pure []
      let pos := max pos next
      let rest ← if b.offset ≤ pos then renderFrom stop ahead b.tag pos else pure []
      return here ++ rest
    else return []

/-- The spans of a range. -/
def render (entries : List Boundary) (range : Extent) : Checked (List Span) :=
  renderFrom lex doc range.stop (entries.drop (countThrough entries range.start))
    (tagAt? entries range.start) range.start

/-- Renders one stale part into the paint and answers what that covered. -/
def renderPart (table : BoundaryTable) (paint : Paint) (part : Extent) :
    Checked (Paint × Extent) := do
  let reach := table.reach doc.length
  let lines ← snapToLines doc part
  let covered ← widenToRegions table.entries ⟨lines.start, max (min lines.stop reach) part.stop⟩ reach
  return (paint.replace covered (← render lex doc table.entries covered), covered)

/-! ## Sessions -/

/-- Brings the analysis in step with an edit. -/
def repair (s : Session) (e : Edit) : Checked Session :=
  if s.lexicon.hasRegions then do
    match ← update? s.lexicon s.analysis doc e s.settings.stepBudget with
    | some a => return { s with analysis := a }
    | none => return { s with analysis := ← invalidate s.analysis doc e, pacer := s.pacer.arm }
  else return s

/-- The edited lines are stale, and the table follows. -/
def applyEdit (s : Session) (e : Edit) : Checked Session :=
  if s.enabled then do
    let s ← repair doc s e
    let newStop ← add e.pos e.delta.toNat
    return s.disturb (← snapToLines doc ⟨e.pos, newStop⟩)
  else return s

/-- The document has gained `count` chars at `pos`. -/
def onInsert (s : Session) (pos count : Nat) : Checked Session :=
  if count = 0 then return s
  else do
    let staleness ← staleAfterInsert s.staleness pos count
    let paint ← paintAfterInsert s.paint pos count
    applyEdit doc { s with staleness, paint } (.insertion pos count)

/-- The document has lost the chars from `start` up to `stop`. -/
def onDelete (s : Session) (start stop : Nat) : Checked Session :=
  if stop ≤ start then return s
  else do
    let staleness ← staleAfterDelete s.staleness start stop
    let paint ← paintAfterDelete s.paint start stop
    let count ← sub stop start
    applyEdit doc { s with staleness, paint } ⟨start, -(count : Int)⟩

/-- Lines that were analyzed just now must be rendered again. -/
def analyzed (s : Session) (range : Extent) : Checked Session :=
  if range.isEmpty then return s else do return s.disturb (← snapToLines doc range)

/-- Analyzes one batch of the present size; none when the table is complete. -/
def analyzeBatch (s : Session) : Checked (Option (Session × BuildReport)) := do
  return (← build s.lexicon s.analysis doc s.pacer.batch).map fun (a, report) =>
    ({ s with analysis := a }, report)

/-- Analyzes until the table holds up to `upto`, in `rounds` batches at most. -/
def analyzeWithin (upto : Nat) : (rounds : Nat) → Session → Checked Session
  | 0, s => return s
  | rounds + 1, s =>
    if s.analysis.table.frontier.any fun f => f.offset < upto then do
      match ← analyzeBatch doc s with
      | some (s, report) => analyzeWithin upto rounds (← analyzed doc s report.range)
      | none => return s
    else return s

/-- Analyzes until the table holds up to `upto`. -/
def ensureAnalyzed (s : Session) (upto : Nat) : Checked Session :=
  analyzeWithin doc upto (Session.roundLimit doc) s

/-- Renders the stale parts of a range that is analyzed already. -/
def renderStale (s : Session) (range : Extent) : Checked Session := do
  let (staleness, paint, _) ←
    refresh s.staleness range (renderPart s.lexicon doc s.analysis.table) s.paint
  return { s with staleness, paint }

/-- Brings every span inside a range up to date. -/
def ensureHighlighted (s : Session) (range : Extent) : Checked Session :=
  if s.enabled then do renderStale doc (← ensureAnalyzed doc s range.stop) range else return s

/-- The spans of a range, after rendering what is stale. -/
def highlight (s : Session) (range : Extent) : Checked (Session × List Span) :=
  if s.enabled then do
    let range := range.clampTo doc.length
    let s ← ensureHighlighted doc s (← snapToLines doc range)
    return (s, s.paint.query range)
  else return (s, [])

/-- Sizes the next batch from a quantum. -/
def record (p : Pacer) (processed nanoseconds : Nat) : Checked Pacer :=
  if processed = 0 then return p
  else do
    let product ← mulWide processed p.slice
    return { p with
      batch := max (min (product / Pacer.micros nanoseconds) greatestBatch) p.minimum }

/-- The scheduled part of a quantum. -/
def analyzeScheduled (s : Session) (nanoseconds : Nat) : Checked Session :=
  if s.pacer.armed then do
    let s ← match ← analyzeBatch doc s with
      | some (s, report) => do
        let pacer ← record s.pacer report.processed nanoseconds
        analyzed doc { s with pacer } report.range
      | none => pure s
    return if s.analysis.table.isComplete then { s with pacer := s.pacer.cancel } else s
  else return s

/-- Renders the stale parts of the wanted ranges, as far as analysis has got. -/
def renderRequested (s : Session) : Checked Session :=
  let reach := s.analysis.table.reach doc.length
  s.staleness.pending.foldlM
    (fun s range =>
      let stop := min range.stop reach
      if range.start < stop then renderStale doc s ⟨range.start, stop⟩ else return s)
    s

/-- One background quantum; answers whether work is left. -/
def runBackground (s : Session) (nanoseconds : Nat) : Checked (Session × Bool) :=
  if s.enabled then do
    let s ← renderRequested doc (← analyzeScheduled doc s nanoseconds)
    return (s, s.hasPendingWork)
  else return (s, false)

/-- Runs quanta of the same length until no work is left, and counts them. -/
def drain (nanoseconds : Nat) : (quanta : Nat) → Session → Checked (Option (Session × Nat))
  | 0, s => return if s.hasPendingWork then none else some (s, 0)
  | quanta + 1, s =>
    if s.hasPendingWork then do
      match ← runBackground doc s nanoseconds with
      | (s, true) =>
        match ← drain nanoseconds quanta s with
        | some (s, n) => return some (s, ← add n 1)
        | none => return none
      | (s, false) => return some (s, 1)
    else return some (s, 0)

/-! ## Brackets -/

variable {κ : Type} [DecidableEq κ]

/-- Scans chars with their offsets for the one that closes `bracket`, with `depth` brackets
    open. -/
def scanPartner (classAt : Nat → κ) (bracket other : Char) (kind : κ) :
    (depth : Nat) → List (Nat × Char) → Checked (Option Nat)
  | _, [] => return none
  | depth, (o, c) :: rest =>
    if (c ≠ bracket ∧ c ≠ other) ∨ classAt o ≠ kind then
      scanPartner classAt bracket other kind depth rest
    else if c = bracket then do scanPartner classAt bracket other kind (← add depth 1) rest
    else do
      let depth ← sub depth 1
      if depth = 0 then return some o else scanPartner classAt bracket other kind depth rest

/-- The chars of an extent with their offsets, from its start on. -/
def charsAhead (e : Extent) : Checked (List (Nat × Char)) :=
  (doc.slice e).toList.zipIdx.mapM fun (c, i) => do return (← add e.start i, c)

/-- The chars of an extent with their offsets, from its end on. -/
def charsBehind (e : Extent) : Checked (List (Nat × Char)) :=
  (doc.slice e).toList.reverse.zipIdx.mapM fun (c, i) => do return (← sub (← sub e.stop 1) i, c)

/-- Offset of the bracket that matches the one before `pos`, among the `limit` chars next to it. -/
def matchingBracket? (pos : Nat) (limit : Option Nat) (classAt : Nat → κ) :
    Checked (Option Nat) :=
  match pos with
  | 0 => return none
  | origin + 1 =>
    match doc.charAt? origin with
    | none => return none
    | some bracket =>
      match partner? bracket with
      | none => return none
      | some (other, forward) => do
        let reach := limit.getD (wordLimit - 1)
        let chars ←
          if forward then charsAhead doc ⟨pos, min doc.length (addCapped pos reach)⟩
          else charsBehind doc ⟨origin - reach, origin⟩
        scanPartner classAt bracket other (classAt origin) 1 chars

/-- Offset of the bracket that matches the one before `pos`, within `limit` chars. -/
def matchingBracket (s : Session) (pos : Nat) (limit : Option Nat) :
    Checked (Session × Option Nat) :=
  if s.enabled && s.lexicon.hasRegions then do
    let upto := match limit with
      | some l => min (addCapped pos l) doc.length
      | none => doc.length
    let s ← ensureAnalyzed doc s upto
    return (s, ← matchingBracket? doc pos limit (tagAt? s.analysis.table.entries))
  else do return (s, ← matchingBracket? doc pos limit fun _ => ())

end Highlighter.Word
