import Highlighter.Boundary
import Highlighter.Document
import Highlighter.Span
import Highlighter.Tokens

/-! # Rendering — spans from boundaries and tokens

    A region is one span in its style, from its opening to its close; text outside regions
    is handed to the token patterns.  To render part of a text the part is first widened,
    so that it neither starts nor ends inside a region. -/

namespace Highlighter

/-- Grows `range` so that it neither starts nor ends inside a region; a region not closed yet
    reaches up to `limit`. -/
def widenToRegions (entries : List Boundary) (range : Extent) (limit : Nat) : Extent :=
  let start := match governing? entries range.start with
    | some b => if b.opens then b.offset else range.start
    | none => range.start
  let stop :=
    if range.stop ≤ range.start then range.stop
    else match governing? entries (range.stop - 1) with
      | some b =>
        if b.opens then
          ((entries.drop (countThrough entries (range.stop - 1))).head?.map (·.offset)).getD limit
        else range.stop
      | none => range.stop
  ⟨start, max (min stop limit) range.stop⟩

variable (lex : Lexicon) (doc : Document)

/-- Token spans of text outside any region; patterns see the line from its start on. -/
def renderTokens (range : Extent) : List Span :=
  if lex.tokens.isEmpty then []
  else
    let base := doc.lineStart range.start
    let window := doc.slice ⟨base, range.stop⟩
    (tokens window lex.tokens (range.start - base)).map fun t =>
      ⟨base + t.extent.start, base + t.extent.stop,
        (lex.tokens[t.pattern]?.map (·.style)).getD ""⟩

/-- Spans of a range that no boundary divides: the region of its tag, or tokens. -/
def renderPiece (tag : Option Nat) (range : Extent) : List Span :=
  match tag.bind lex.region? with
  | some d => [⟨range.start, range.stop, d.style⟩]
  | none => renderTokens lex doc range

/-- Spans from `pos` up to `stop`, with the boundaries ahead and the tag of the region around
    `pos`. -/
def renderFrom (stop : Nat) : (ahead : List Boundary) → (tag : Option Nat) → (pos : Nat) → List Span
  | [], tag, pos => if pos < stop then renderPiece lex doc tag ⟨pos, stop⟩ else []
  | b :: ahead, tag, pos =>
    if pos < stop then
      let next := min b.offset stop
      let here := if pos < next then renderPiece lex doc tag ⟨pos, next⟩ else []
      let pos := max pos next
      here ++ (if b.offset ≤ pos then renderFrom stop ahead b.tag pos else [])
    else []

/-- The spans of a range. -/
def render (entries : List Boundary) (range : Extent) : List Span :=
  renderFrom lex doc range.stop (entries.drop (countThrough entries range.start))
    (tagAt? entries range.start) range.start

end Highlighter
