import Highlighter.Proofs.Background

/-! # Up to date — a range is analyzed and rendered once

    A range is up to date when the table holds up to its end and nothing in it is dirty
    (`Session.UpToDate`).  Asking for spans brings whole lines up to date, however many
    batches and passes that takes (`Bounded.ensureHighlighted_upToDate`); after that, to make
    sure of any part of them is to do nothing (`UpToDate.ensureHighlighted`).  So a query
    inside an earlier one is answered from the paint as it stands, and its answer is the
    earlier one, clipped. -/

namespace Highlighter

namespace Session

variable {s : Session} {doc : Document} {range range' : Extent}

/-- No batch is due before the end of a range, and nothing in it is to be rendered. -/
structure UpToDate (s : Session) (range : Extent) : Prop where
  analyzed : s.Reaches range.stop
  rendered : ∀ x ∈ s.staleness.dirty, x ∉ range

/-! ## Bringing a range up to date -/

/-- **Analysis on demand ends** only where the table holds as far as it was asked to: every batch
    takes one of the calls that are left. -/
theorem Bounded.analyzeWithin_reaches (h : s.Bounded doc) (henabled : s.enabled = true)
    (upto : Nat) {rounds : Nat} (hrounds : s.analysis.callsLeft doc ≤ rounds) :
    (Session.analyzeWithin doc upto rounds s).Reaches upto := by
  induction rounds generalizing s with
  | zero =>
      have hdone := Analysis.isComplete_of_callsLeft (h.analysis henabled) (Nat.le_zero.1 hrounds)
      intro f hf
      exact absurd (hf.symm.trans (Option.isNone_iff_eq_none.1 hdone)) (Option.some_ne_none f)
  | succ rounds ih =>
      rw [Session.analyzeWithin]
      split
      · rw [analyzeBatch]
        cases hbuild : s.analysis.build s.lexicon doc s.pacer.batch with
        | none =>
            intro f hf
            exact absurd (hf.symm.trans (h.frontier_eq_none henabled hbuild)) (Option.some_ne_none f)
        | some built =>
            obtain ⟨a, report⟩ := built
            obtain ⟨hbatch, -, hless⟩ := h.batch henabled hbuild (rfl : s.pacer.armed = s.pacer.armed)
            have hmarked := hbatch.bounded.analyzed report.range
            refine ih hmarked.bounded (hmarked.keeps.enabled.trans henabled) ?_
            rw [(keeps_analyzed _ doc report.range).2]
            exact Nat.le_of_lt_succ (Nat.lt_of_lt_of_le hless hrounds)
      · rename_i hfar
        intro f hf
        rw [hf] at hfar
        simpa using hfar

/-- **Making sure of a range** brings it up to date. -/
theorem Bounded.ensureHighlighted_upToDate (h : s.Bounded doc) (henabled : s.enabled = true)
    (range : Extent) : (s.ensureHighlighted doc range).UpToDate range := by
  have hanalyzed := h.ensureAnalyzed henabled range.stop
  obtain ⟨hclean, -⟩ := hanalyzed.bounded.renderStale_clean range
  rw [Session.ensureHighlighted, if_pos henabled]
  constructor
  · exact h.analyzeWithin_reaches henabled range.stop (callsLeft_le s.analysis doc)
  · intro x hx
    exact (hclean x hx).2

/-! ## Nothing left to do -/

/-- A part of what is up to date is up to date. -/
theorem UpToDate.mono (h : s.UpToDate range) (hstart : range.start ≤ range'.start)
    (hstop : range'.stop ≤ range.stop) : s.UpToDate range' := by
  constructor
  · intro f hf
    exact Nat.le_trans hstop (h.analyzed f hf)
  · rintro x hx ⟨h1, h2⟩
    exact h.rendered x hx ⟨Nat.le_trans hstart h1, Nat.lt_of_lt_of_le h2 hstop⟩

/-- **Making sure of what is up to date** does nothing. -/
theorem UpToDate.ensureHighlighted (h : s.UpToDate range) (doc : Document) :
    s.ensureHighlighted doc range = s := by
  have hfar : ¬(s.analysis.table.frontier.any fun f => f.offset < range.stop) = true := by
    cases hf : s.analysis.table.frontier with
    | none => simp
    | some f => simpa using h.analyzed f hf
  have hanalyzed : s.ensureAnalyzed doc range.stop = s := by
    show analyzeWithin doc range.stop (2 * doc.length + 3 + 1) s = s
    rw [analyzeWithin, if_neg hfar]
  have hrendered : s.renderStale doc range = s := by
    rw [renderStale, Staleness.refresh, ExtentSet.within_eq_nil h.rendered]
    rfl
  rw [Session.ensureHighlighted]
  split
  · rw [hanalyzed, hrendered]
  · rfl

/-- The spans of a part are those of the whole range, clipped to the part. -/
theorem query_part {p : Paint} {n : Nat} (hlaid : Laid 0 p.spans n)
    (hstart : range.start ≤ range'.start) (hstop : range'.stop ≤ range.stop) :
    p.query (range'.clampTo n) =
      ((p.query (range.clampTo n)).map (·.clip range')).filter fun t => !t.isEmpty := by
  obtain ⟨a, b⟩ := range
  obtain ⟨a', b'⟩ := range'
  have hstart : a ≤ a' := hstart
  have hstop : b' ≤ b := hstop
  rw [Paint.query_eq hlaid, Paint.query_eq hlaid]
  show clipped p.spans (min a' n) (min b' n) =
    clipped (clipped p.spans (min a n) (min b n)) a' b'
  rw [clipped_clipped]
  by_cases hin : a' ≤ n
  · have hmax : max (min a n) a' = min a' n := by omega
    have hmin : min (min b n) b' = min b' n := by omega
    rw [hmax, hmin]
  · -- behind the text there is nothing to show
    rw [clipped_of_le (by omega : min b' n ≤ min a' n),
      clipped_of_le (by omega : min (min b n) b' ≤ max (min a n) a')]

theorem highlight_of_enabled (henabled : s.enabled = true) (doc : Document) (range : Extent) :
    s.highlight doc range =
      (s.ensureHighlighted doc (doc.snapToLines (range.clampTo doc.length)),
        (s.ensureHighlighted doc (doc.snapToLines (range.clampTo doc.length))).paint.query
          (range.clampTo doc.length)) := by
  rw [highlight, if_pos henabled]

theorem highlight_of_disabled (hoff : s.enabled = false) (doc : Document) (range : Extent) :
    s.highlight doc range = (s, []) := by
  rw [highlight, if_neg (by rw [hoff]; exact Bool.false_ne_true)]

/-- **Asking for a part** of what was asked for before finds the part up to date. -/
theorem Bounded.highlight_upToDate (h : s.Bounded doc) (henabled : s.enabled = true)
    (hstart : range.start ≤ range'.start) (hle : range'.start ≤ range'.stop)
    (hstop : range'.stop ≤ range.stop) :
    (s.highlight doc range).1.UpToDate (doc.snapToLines (range'.clampTo doc.length)) := by
  have hfirst : (range.clampTo doc.length).start ≤ (range'.clampTo doc.length).start := by
    show min range.start doc.length ≤ min range'.start doc.length
    omega
  have hpart : (range'.clampTo doc.length).start ≤ (range'.clampTo doc.length).stop := by
    show min range'.start doc.length ≤ min range'.stop doc.length
    omega
  have hlast : (range'.clampTo doc.length).stop ≤ (range.clampTo doc.length).stop := by
    show min range'.stop doc.length ≤ min range.stop doc.length
    omega
  -- clamping to the text and snapping to lines both keep the part inside the range
  have hsnap := doc.snapToLines_mono hfirst hpart hlast
  rw [highlight_of_enabled henabled]
  exact (h.ensureHighlighted_upToDate henabled _).mono hsnap.1 hsnap.2

/-- **Asking for a part** of what was asked for before does nothing, and answers what was answered
    before, clipped to the part. -/
theorem Bounded.highlight_part (h : s.Bounded doc) (hstart : range.start ≤ range'.start)
    (hle : range'.start ≤ range'.stop) (hstop : range'.stop ≤ range.stop) :
    (s.highlight doc range).1.highlight doc range' =
      ((s.highlight doc range).1,
        ((s.highlight doc range).2.map (·.clip range')).filter fun t => !t.isEmpty) := by
  have hworks := h.highlight range
  cases henabled : s.enabled with
  | true =>
      have hpart := h.highlight_upToDate henabled hstart hle hstop
      rw [highlight_of_enabled (hworks.keeps.enabled.trans henabled), hpart.ensureHighlighted,
        query_part hworks.bounded.laid hstart hstop, highlight_of_enabled henabled]
  | false =>
      rw [highlight_of_disabled henabled, highlight_of_disabled henabled]
      rfl

/-- Asking again for the same range answers the same. -/
theorem Bounded.highlight_twice (h : s.Bounded doc) (hle : range.start ≤ range.stop) :
    (s.highlight doc range).1.highlight doc range = s.highlight doc range := by
  rw [h.highlight_part (Nat.le_refl _) hle (Nat.le_refl _)]
  cases henabled : s.enabled with
  | true =>
      have hlaid := (h.highlight range).bounded.laid
      rw [highlight_of_enabled henabled] at hlaid ⊢
      rw [← query_part hlaid (Nat.le_refl range.start) (Nat.le_refl range.stop)]
  | false =>
      rw [highlight_of_disabled henabled]
      rfl

end Session

namespace Buffer

variable {b : Buffer} {range range' : Extent}

/-- **A range is rendered once.**  Once a buffer has answered a range, asking for any part of it
    leaves the buffer as it is, with the render passes and the ranges told to listeners counted in,
    as no batch is due for the lines of the part and nothing in them is dirty.  The answer is the
    one before, clipped to the part, without the pieces that hold nothing; and the whole range gets
    the same answer again. -/
theorem highlight_again (h : b.Reachable) (hstart : range.start ≤ range'.start)
    (hle : range'.start ≤ range'.stop) (hstop : range'.stop ≤ range.stop) :
    (b.highlight range).1.highlight range' =
        ((b.highlight range).1,
          ((b.highlight range).2.map (·.clip range')).filter fun t => !t.isEmpty) ∧
      (b.highlight range).1.highlight range = b.highlight range ∧
      (b.session.enabled = true → (b.highlight range).1.session.UpToDate
        (b.document.snapToLines (range'.clampTo b.document.length))) := by
  have hbounded := h.tended.bounded
  have hanswers : ∀ e, (b.highlight range).1.highlight e =
      ({ b with session := ((b.session.highlight b.document range).1.highlight b.document e).1 },
        ((b.session.highlight b.document range).1.highlight b.document e).2) := fun _ => rfl
  refine ⟨?_, ?_, fun henabled => hbounded.highlight_upToDate henabled hstart hle hstop⟩
  · rw [hanswers, hbounded.highlight_part hstart hle hstop]
    rfl
  · have hfull := Nat.le_trans hstart (Nat.le_trans hle hstop)
    rw [hanswers, hbounded.highlight_twice hfull]
    rfl

/-- The close of a region over two lines, once the whole region has been asked for. -/
theorem highlight_again_twoLines : Reachable twoLines ∧
    (twoLines.highlight ⟨0, 3⟩).1.highlight ⟨2, 3⟩ =
        ((twoLines.highlight ⟨0, 3⟩).1,
          ((twoLines.highlight ⟨0, 3⟩).2.map (·.clip ⟨2, 3⟩)).filter fun t => !t.isEmpty) ∧
      (twoLines.highlight ⟨0, 3⟩).1.highlight ⟨0, 3⟩ = twoLines.highlight ⟨0, 3⟩ ∧
      (twoLines.session.enabled = true → (twoLines.highlight ⟨0, 3⟩).1.session.UpToDate
        (twoLines.document.snapToLines ((Extent.mk 2 3).clampTo twoLines.document.length))) :=
  ⟨reachable_twoLines, highlight_again reachable_twoLines (by decide) (by decide) (by decide)⟩

end Buffer

end Highlighter
