import Highlighter.Proofs.Passes

/-! # Rendered — what a pass paints, whatever the patterns match

    Rendering goes from left to right and never back, so its spans lie in order inside the
    range it was asked for (`laid_render`).  That needs nothing of the patterns, nor of the
    boundaries.  Widening only ever widens.  So each pass hands `replace` a window that is
    not reversed and spans that are laid in it (`replacements_arranged`). -/

namespace Highlighter

/-! ## Rendering a range -/

section Render

variable (lex : Lexicon) (doc : Document) {range : Extent}

/-- The tokens of a range lie inside it, in order, whatever the patterns are. -/
theorem laid_renderTokens (hle : range.start ≤ range.stop) :
    Laid range.start (renderTokens lex doc range) range.stop := by
  by_cases hnone : lex.tokens.isEmpty = true
  · rw [renderTokens, if_pos hnone]
    exact hle
  · obtain ⟨u, v⟩ := range
    have hbase := doc.lineStart_le u
    have hsize : (doc.slice ⟨doc.lineStart u, v⟩).size = min v doc.length - doc.lineStart u :=
      doc.size_slice _
    have hle : u ≤ v := hle
    rw [renderTokens_shifted doc (Bool.eq_false_iff.2 hnone)]
    generalize doc.slice ⟨doc.lineStart u, v⟩ = window at hsize
    by_cases hp : u - doc.lineStart u ≤ window.size
    · have hmoved : 0 ≤ ((u - doc.lineStart u : Nat) : Int) + (doc.lineStart u : Int) := by omega
      refine ((Lexicon.laid_tokens lex window hp).shifted hmoved).mono ?_ ?_
      · show u ≤ (((u - doc.lineStart u : Nat) : Int) + (doc.lineStart u : Int)).toNat
        omega
      · show ((window.size : Int) + (doc.lineStart u : Int)).toNat ≤ v
        omega
    · -- the range begins past the end of the text
      have hroom : window.size - (u - doc.lineStart u) = 0 := by omega
      rw [tokens, hroom, takeTokens]
      exact hle

/-- What is rendered of a piece lies inside it, in order. -/
theorem laid_renderPiece (tag : Option Nat) (hlt : range.start < range.stop) :
    Laid range.start (renderPiece lex doc tag range) range.stop := by
  rw [renderPiece]
  cases tag.bind lex.region? with
  | none => exact laid_renderTokens lex doc (Nat.le_of_lt hlt)
  | some d => exact ⟨Nat.le_refl _, hlt, Nat.le_refl _⟩

/-- What is rendered of a range lies inside it, in order. -/
theorem laid_renderFrom {stop pos : Nat} (ahead : List Boundary) (tag : Option Nat)
    (hle : pos ≤ stop) : Laid pos (renderFrom lex doc stop ahead tag pos) stop := by
  induction ahead generalizing tag pos with
  | nil =>
      rw [renderFrom]
      split
      · exact @laid_renderPiece lex doc ⟨pos, stop⟩ tag (by assumption)
      · exact hle
  | cons b rest ih =>
      rw [renderFrom]
      by_cases hlt : pos < stop
      · rw [if_pos hlt]
        have hhere : Laid pos (if pos < min b.offset stop then
            renderPiece lex doc tag ⟨pos, min b.offset stop⟩ else []) (max pos (min b.offset stop)) := by
          split
          · have := @laid_renderPiece lex doc ⟨pos, min b.offset stop⟩ tag (by assumption)
            exact this.mono (Nat.le_refl _) (Nat.le_max_right _ _)
          · exact Nat.le_max_left _ _
        refine hhere.append ?_
        have hnext : max pos (min b.offset stop) ≤ stop := by omega
        split
        · exact ih b.tag hnext
        · exact hnext
      · rw [if_neg hlt]
        exact hle

/-- **Rendering** lays its spans in order inside the range, whatever the boundaries. -/
theorem laid_render (entries : List Boundary) (hle : range.start ≤ range.stop) :
    Laid range.start (render lex doc entries range) range.stop := laid_renderFrom lex doc _ _ hle

end Render

/-! ## Passes -/

theorem regionStart_le (entries : List Boundary) (p : Nat) : regionStart entries p ≤ p := by
  rw [regionStart]
  cases hgov : governing? entries p with
  | none => exact Nat.le_refl p
  | some b =>
      simp only
      split
      · exact (governing?_eq_some hgov).2
      · exact Nat.le_refl p

/-- What a pass hands to `replace`. -/
structure Replacement where
  window : Extent
  spans  : List Span

namespace Replacement

/-- What the pass over a stale part hands to `replace`. -/
def ofPart (lex : Lexicon) (table : BoundaryTable) (doc : Document) (part : Extent) : Replacement :=
  let reach := table.reach doc.length
  let lines := doc.snapToLines part
  let window := widenToRegions table.entries ⟨lines.start, max (min lines.stop reach) part.stop⟩ reach
  ⟨window, render lex doc table.entries window⟩

def apply (paint : Paint) (r : Replacement) : Paint := paint.replace r.window r.spans

variable (lex : Lexicon) (table : BoundaryTable) (doc : Document) {part : Extent}

/-- To render a part is one call of `replace`. -/
theorem renderPart_eq (paint : Paint) : Session.renderPart lex table doc paint part =
    ((ofPart lex table doc part).apply paint, (ofPart lex table doc part).window) := rfl

/-- The window of a pass holds its part, and goes no further than the text. -/
theorem window_ofPart (hlt : part.start < part.stop) :
    (ofPart lex table doc part).window.start ≤ part.start ∧
      part.stop ≤ (ofPart lex table doc part).window.stop ∧
      (∀ n, table.reach doc.length ≤ n → part.stop ≤ n →
        (ofPart lex table doc part).window.stop ≤ n) := by
  have hstart : (doc.snapToLines part).start ≤ part.start := by
    have := doc.lineStart_le (min part.start doc.length)
    show doc.lineStart (min part.start doc.length) ≤ part.start
    omega
  have hwiden := regionStart_le table.entries (doc.snapToLines part).start
  have hof : (ofPart lex table doc part).window = _ := widenToRegions_eq (by omega)
  rw [hof]
  refine ⟨Nat.le_trans hwiden hstart, ?_, ?_⟩
  · show part.stop ≤ max _ (max _ part.stop)
    omega
  · intro n hreach hpart
    show max (min _ (table.reach doc.length)) (max (min _ (table.reach doc.length)) part.stop) ≤ n
    omega

/-- The spans of a pass are laid in its window. -/
theorem laid_ofPart (hlt : part.start < part.stop) :
    Laid (ofPart lex table doc part).window.start (ofPart lex table doc part).spans
      (ofPart lex table doc part).window.stop := by
  obtain ⟨hstart, hstop, -⟩ := window_ofPart lex table doc hlt
  exact laid_render lex doc table.entries (by omega)

end Replacement

namespace Session

/-- All that is handed to `replace` while the stale parts of a range are rendered, in order. -/
def replacements (s : Session) (doc : Document) (range : Extent) : List Replacement :=
  (s.staleness.refresh range
    (fun log part =>
      let r := Replacement.ofPart s.lexicon s.analysis.table doc part
      (log ++ [r], r.window)) []).2.1

/-- Rendering stale parts makes these replacements, one after the other. -/
theorem renderStale_paint (s : Session) (doc : Document) (range : Extent) :
    (s.renderStale doc range).paint =
      (s.replacements doc range).foldl Replacement.apply s.paint := by
  -- both loops go over the same parts: what is dirty stays the same in them
  have hloops := List.foldl_rel (l := s.staleness.dirty.within range)
    (f := Staleness.refreshPart (renderPart s.lexicon s.analysis.table doc))
    (g := Staleness.refreshPart fun log part =>
      let r := Replacement.ofPart s.lexicon s.analysis.table doc part
      (log ++ [r], r.window))
    (r := fun painted logged => painted.1 = logged.1 ∧ painted.2.2 = logged.2.2 ∧
      painted.2.1 = logged.2.1.foldl Replacement.apply s.paint)
    (a := (s.staleness, s.paint, 0)) (b := (s.staleness, [], 0)) ⟨rfl, rfl, rfl⟩ ?_
  · exact hloops.2.2
  · rintro part - ⟨t, p, n⟩ ⟨t', log, n'⟩ ⟨rfl, rfl, hp⟩
    have hp : p = log.foldl Replacement.apply s.paint := hp
    rw [Staleness.refreshPart, Staleness.refreshPart]
    by_cases hover : t.dirty.overlaps part = true
    · simp only [hover, if_true, Replacement.renderPart_eq]
      refine ⟨trivial, trivial, ?_⟩
      rw [List.foldl_append, ← hp]
      rfl
    · simp only [hover, Bool.false_eq_true, if_false]
      exact ⟨trivial, trivial, hp⟩

/-- **Every replacement** has a window that is not reversed, and spans that are laid in it. -/
theorem replacements_laid (s : Session) (doc : Document) (range : Extent) :
    ∀ r ∈ s.replacements doc range, Laid r.window.start r.spans r.window.stop := by
  obtain ⟨n, hn⟩ := exists_upto Extent.stop s.staleness.dirty.extents
  refine Staleness.refresh_keeps (t := s.staleness) (s := ([] : List Replacement)) (e := range)
    (motive := fun _ (log : List Replacement) => ∀ r ∈ log,
      Laid r.window.start r.spans r.window.stop)
    hn (fun part _ log hlt _ _ _ hlog r hr => ?_) (by simp)
  rcases List.mem_append.1 hr with hr | hr
  · exact hlog r hr
  · obtain rfl := List.mem_singleton.1 hr
    exact Replacement.laid_ofPart _ _ _ hlt

end Session

end Highlighter
