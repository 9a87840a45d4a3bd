import Highlighter.Proofs.Reachable
import Highlighter.Proofs.Words

/-! # Rendering in words — spans lie in the text

    Tokens are found in a window that ends where their stretch does, and pieces lie between
    boundaries and the ends of their range; so rendering a range of the text makes no sum that
    is past its end.  Of a refresh only the number of passes can grow too large. -/

namespace Highlighter.Word

variable {lex : Lexicon} {doc : Document}

/-- To widen a range to its regions takes no sum. -/
theorem widenToRegions_eq (entries : List Boundary) (range : Extent) (limit : Nat) :
    widenToRegions entries range limit = .ok (Highlighter.widenToRegions entries range limit) := by
  rw [widenToRegions, Highlighter.widenToRegions]
  by_cases hempty : range.stop ≤ range.start
  · rw [if_pos hempty, if_pos hempty]
    rfl
  · rw [if_neg hempty, if_neg hempty, sub_eq_ok (by omega)]
    rfl

/-- The tokens of a range are rendered without overflow. -/
theorem renderTokens_eq (hsmall : doc.length < textLimit) {range : Extent}
    (hlt : range.start < range.stop) (hstop : range.stop ≤ doc.length) :
    renderTokens lex doc range = .ok (Highlighter.renderTokens lex doc range) := by
  rw [renderTokens, Highlighter.renderTokens]
  by_cases hnone : lex.tokens.isEmpty = true
  · rw [if_pos hnone, if_pos hnone]
    rfl
  · rw [if_neg hnone, if_neg hnone]
    have hbase := doc.lineStart_le range.start
    have hsize := doc.size_slice ⟨doc.lineStart range.start, range.stop⟩
    have hlaid := Lexicon.laid_tokens lex (doc.slice ⟨doc.lineStart range.start, range.stop⟩)
      (p := range.start - doc.lineStart range.start) (by simp only at hsize; omega)
    dsimp only
    rw [sub_eq_ok (by omega), ok_bind]
    refine mapM_eq_ok ?_
    intro t ht
    -- a token lies in the window
    have hmem := List.mem_map_of_mem (f := lex.spanOf) ht
    have hstart : t.extent.start < t.extent.stop := hlaid.lt hmem
    have hend : t.extent.stop ≤ _ := (hlaid.bounds hmem).2
    simp only at hsize
    rw [add_eq_ok (lt_wordLimit (by omega)), ok_bind, add_eq_ok (lt_wordLimit (by omega))]
    rfl

theorem renderPiece_eq (hsmall : doc.length < textLimit) (tag : Option Nat) {range : Extent}
    (hlt : range.start < range.stop) (hstop : range.stop ≤ doc.length) :
    renderPiece lex doc tag range = .ok (Highlighter.renderPiece lex doc tag range) := by
  rw [renderPiece, Highlighter.renderPiece]
  cases tag.bind lex.region? with
  | none => exact renderTokens_eq hsmall hlt hstop
  | some d => rfl

theorem renderFrom_eq (hsmall : doc.length < textLimit) {stop : Nat} (hstop : stop ≤ doc.length)
    (ahead : List Boundary) (tag : Option Nat) (pos : Nat) :
    renderFrom lex doc stop ahead tag pos =
      .ok (Highlighter.renderFrom lex doc stop ahead tag pos) := by
  induction ahead generalizing tag pos with
  | nil =>
      rw [renderFrom, Highlighter.renderFrom]
      split
      next hlt => exact renderPiece_eq hsmall tag hlt hstop
      next => rfl
  | cons b rest ih =>
      rw [renderFrom, Highlighter.renderFrom]
      by_cases hlt : pos < stop
      · rw [if_pos hlt, if_pos hlt]
        dsimp only
        rw [ih]
        split
        next hnext =>
          rw [renderPiece_eq hsmall tag hnext (Nat.le_trans (Nat.min_le_right _ _) hstop)]
          split
          · rfl
          · rfl
        next =>
          split
          · rfl
          · rfl
      · rw [if_neg hlt, if_neg hlt]
        rfl

/-- Rendering never overflows in a small text. -/
theorem render_eq (hsmall : doc.length < textLimit) (entries : List Boundary) {range : Extent}
    (hstop : range.stop ≤ doc.length) :
    render lex doc entries range = .ok (Highlighter.render lex doc entries range) :=
  renderFrom_eq hsmall hstop _ _ _

/-- A pass over a part of the text. -/
theorem renderPart_eq (hsmall : doc.length < textLimit) {table : BoundaryTable}
    (hreach : table.reach doc.length ≤ doc.length) (paint : Paint) {part : Extent}
    (hlt : part.start < part.stop) (hstop : part.stop ≤ doc.length) :
    renderPart lex doc table paint part = .ok (Session.renderPart lex table doc paint part) := by
  obtain ⟨-, -, hwindow⟩ := Replacement.window_ofPart lex table doc hlt
  have hrender := @render_eq lex _ hsmall table.entries _ (hwindow doc.length hreach hstop)
  rw [Replacement.ofPart] at hrender
  rw [renderPart, snapToLines_eq hsmall, ok_bind, widenToRegions_eq, ok_bind, hrender]
  rfl

/-! ## Passes -/

section Passes

variable {σ : Type} {render : σ → Extent → Checked (σ × Extent)} {exact : σ → Extent → σ × Extent}

/-- A pass is counted. -/
theorem renders_refreshPart_le (acc : Staleness × σ × Nat) (part : Extent) :
    acc.1.renders ≤ (Staleness.refreshPart exact acc part).1.renders := by
  obtain ⟨t, s, count⟩ := acc
  rw [Staleness.refreshPart]
  by_cases hover : t.dirty.overlaps part = true
  · simp only [hover, if_true]
    exact Nat.le_succ _
  · simp only [hover, Bool.false_eq_true, if_false]
    exact Nat.le_refl _

/-- A refresh does not take render passes back. -/
theorem renders_refresh_le (t : Staleness) (e : Extent) (s : σ) :
    t.renders ≤ (t.refresh e exact s).1.renders := by
  rw [Staleness.refresh]
  refine List.foldlRecOn (motive := fun acc : Staleness × σ × Nat => t.renders ≤ acc.1.renders)
    _ _ (Nat.le_refl _) ?_
  intro acc hacc part _
  exact Nat.le_trans hacc (renders_refreshPart_le acc part)

/-- **A refresh** overflows only by the number of passes there have been. -/
theorem computes_refresh {t : Staleness} {n : Nat} {e : Extent} (hupto : t.dirty.Upto n)
    (hfew : t.renders < wordLimit)
    (hrender : ∀ s (part : Extent), part.start < part.stop → part.stop ≤ n →
      render s part = .ok (exact s part)) (s : σ) :
    Computes (refresh t e render s) (t.refresh e exact s)
      (wordLimit ≤ (t.refresh e exact s).1.renders) := by
  -- a refresh has made no more passes than there have been in all, so it is enough to count these
  refine Computes.foldlM (fun acc : Staleness × σ × Nat => acc.2.2 ≤ acc.1.renders)
    (fun acc => wordLimit ≤ acc.1.renders) ?_ ?_ (Nat.zero_le _) (Nat.not_le.2 hfew)
  · rintro ⟨t', s', count⟩ hcount hstill part hpart
    obtain ⟨hlt, -, -, f, hf, hle⟩ := ExtentSet.part_of_mem_within hpart
    have hcount : count ≤ t'.renders := hcount
    rw [refreshPart, Staleness.refreshPart]
    by_cases hover : t'.dirty.overlaps part = true
    · simp only [hover, if_true]
      rw [hrender s' part hlt (Nat.le_trans hle (hupto.stop_le hf)), ok_bind]
      refine ⟨?_, Nat.succ_le_succ hcount⟩
      refine Computes.bind_ok (computes_add t'.renders 1) ?_
      intro hfits
      rw [add_eq_ok (by omega)]
      rfl
    · simp only [hover, Bool.false_eq_true, if_false]
      exact ⟨.of_ok rfl hstill, hcount⟩
  · intro acc part hmany
    exact Nat.le_trans hmany (renders_refreshPart_le acc part)

end Passes

end Highlighter.Word
