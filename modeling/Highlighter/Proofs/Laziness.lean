import Highlighter.Proofs.Brackets
import Highlighter.Proofs.Passes

/-! # Laziness — neither the order nor the size of the work shows

    A session that is in step with its text answers as if all of the text had been analyzed
    and rendered at once: analysis stops where it is not needed yet, and what a batch or a
    pass does keeps the session in step (`Session.InStep`).  So every run of calls does, and
    every answer is the one that the whole text gives (`answers_independent_of_calls`). -/

namespace Highlighter

variable {lex : Lexicon} {text : Array Char}

/-! ## What a paint in step shows -/

namespace BoundaryTable

variable {t : BoundaryTable}

/-- Where the table holds it governs as all boundaries do. -/
theorem Holds.tagAt?_eq (h : t.Holds lex text) (hlawful : lex.Lawful) {o : Nat}
    (ho : o < t.reach text.size) :
    tagAt? t.entries o = tagAt? (lex.boundaries text 0 .outside) o := by
  obtain ⟨more, hmore, hfar⟩ := h.exists_more hlawful
  rw [Highlighter.tagAt?_eq, Highlighter.tagAt?_eq, hmore]
  exact (tagThrough_append_of_lt fun b hb => Nat.lt_of_lt_of_le ho (hfar b hb)).symm

end BoundaryTable

/-- **A window with nothing dirty shows what the whole text shows there.** -/
theorem InStep.shows {a : Analysis} {p : Paint} {dirty : ExtentSet}
    (h : InStep lex text a p dirty) (hlawful : lex.Lawful) (htokens : lex.TokensLocal) {x y : Nat}
    (hxy : x ≤ y)
    (hy : y ≤ a.table.reach text.size) (hclean : ∀ i, x ≤ i → i < y → i ∉ dirty) :
    clipped p.spans x y =
      clipped (lex.drawing text (lex.boundaries text 0 .outside) 0 text.size) x y := by
  have hnone : clipped p.spans (a.table.reach text.size) y = [] := clipped_of_le hy
  rw [painted_zero.1 h.painted x y (Nat.zero_le x) hxy (Nat.le_trans hxy hy) hclean, hnone,
    List.append_nil]
  exact h.table.clipped_drawing hlawful htokens h.landed hy

/-- What a batch covers lies inside the text. -/
theorem Batch.range_le {doc : Document} {a a' : Analysis} {f : Frontier} {report : BuildReport}
    (hle : f.offset ≤ doc.length) (h : Batch lex doc a f a' report) :
    report.range.stop ≤ doc.length := by
  cases h with
  | idle _ => exact Nat.le_refl _
  | goesOn _ _ hstop _ _ _ _ => exact Nat.le_of_lt hstop
  | ends _ => exact Nat.le_refl _
  | @meets bs o at' d s front behind _ ho hd _ _ =>
      have h1 := Lexicon.mark_le o d
      have h2 : o + d.1 ≤ doc.length :=
        doc.length_eq ▸ (Lexicon.delimiterAt?_bounds hd).1
      exact Nat.max_le.2 ⟨Nat.le_trans h1 h2, hle⟩

/-- With nothing set aside, nothing is after a batch. -/
theorem Batch.saved_eq_none {doc : Document} {a a' : Analysis} {f : Frontier}
    {report : BuildReport} (hnone : a.saved = none) (h : Batch lex doc a f a' report) :
    a'.saved = none := by
  cases h with
  | idle _ => rfl
  | @goesOn bs stop state saved _ _ _ _ _ hremains _ =>
      cases saved with
      | none => rfl
      | some s' =>
          obtain ⟨s, -, hs, -⟩ := hremains s' rfl
          exact absurd (hnone.symm.trans hs) (Option.some_ne_none s).symm
  | ends _ => rfl
  | meets _ _ _ _ _ => rfl

namespace Analysis

variable {a a' : Analysis} {doc : Document} {limit : Nat} {report : BuildReport}

/-- Without regions there is nothing to find: the table is fresh, or empty and complete. -/
def Quiet (a : Analysis) : Prop :=
  a = fresh ∨ a = { table := { entries := [], frontier := none }, saved := none }

/-- Without regions building leaves the table quiet. -/
theorem Quiet.build (h : a.Quiet) (hregions : lex.hasRegions = false)
    (hbuild : a.build lex doc limit = some (a', report)) : a'.Quiet := by
  rcases h with rfl | rfl
  · rw [Analysis.build, hregions] at hbuild
    have hbuild : some _ = some (a', report) := hbuild
    exact .inr (congrArg Prod.fst (Option.some.inj hbuild)).symm
  · exact absurd hbuild.symm (Option.some_ne_none _)

end Analysis

/-! ## Sessions in step -/

namespace Session

variable {s s' s'' : Session} {doc : Document}

/-- The session is in step with its text.  What is set aside can be taken back, unless there is
    nothing. -/
structure InStep (s : Session) (doc : Document) : Prop where
  paint : Highlighter.InStep s.lexicon doc.chars s.analysis s.paint s.staleness.dirty
  stops : s.lexicon.StopsUnescaped ∨ s.analysis.saved = none
  quiet : s.lexicon.hasRegions = false → s.analysis.Quiet

/-- What no work on demand changes. -/
structure Keeps (s s' : Session) : Prop where
  lexicon  : s'.lexicon = s.lexicon
  settings : s'.settings = s.settings
  enabled  : s'.enabled = s.enabled

theorem Keeps.refl (s : Session) : s.Keeps s := ⟨rfl, rfl, rfl⟩

/-- What two works on demand keep is kept by both together. -/
theorem Keeps.trans (h : s.Keeps s') (h' : s'.Keeps s'') : s.Keeps s'' :=
  ⟨h'.lexicon.trans h.lexicon, h'.settings.trans h.settings, h'.enabled.trans h.enabled⟩

/-- To mark a stretch as analyzed keeps the rest, and the analysis too. -/
theorem keeps_analyzed (s : Session) (doc : Document) (range : Extent) :
    s.Keeps (s.analyzed doc range) ∧ (s.analyzed doc range).analysis = s.analysis := by
  rw [analyzed]
  split
  · exact ⟨.refl s, rfl⟩
  · exact ⟨⟨rfl, rfl, rfl⟩, rfl⟩

/-- Whole lines around a range hold all of it. -/
theorem mem_snapToLines {e : Extent} (hstop : e.stop ≤ doc.length) {x : Nat} (hx : x ∈ e) :
    x ∈ doc.snapToLines e ∧ (doc.snapToLines e).stop ≤ doc.length := by
  have h1 : e.start ≤ x := hx.1
  have h2 : x < e.stop := hx.2
  have hstart := doc.lineStart_le e.start
  have hend := doc.le_lineEnd hstop
  rw [doc.snapToLines_eq (by omega) hstop]
  refine ⟨⟨?_, ?_⟩, Nat.min_le_right _ _⟩
  · show doc.lineStart e.start ≤ x
    omega
  · show x < min (doc.lineEnd e.stop + 1) doc.length
    omega

/-- **Marking what a batch has scanned** keeps the session in step. -/
theorem InStep.batch (h : s.InStep doc) (htokens : s.lexicon.TokensLocal)
    (hlocal : s.lexicon.LineLocal) {f : Frontier} (hf : s.analysis.table.frontier = some f) :
    ∃ a' report, s.analyzeBatch doc = some ({ s with analysis := a' }, report) ∧
      (∀ pacer, (analyzed { s with analysis := a', pacer } doc report.range).InStep doc) ∧
      a'.callsLeft doc < s.analysis.callsLeft doc := by
  have hle : f.offset ≤ doc.length := doc.length_eq ▸ h.paint.table.frontier_le hf
  obtain ⟨a', report, hbuild, hbatch⟩ :=
    build_batch hlocal doc s.analysis s.pacer.batch hf hle
  have hsound := h.paint.sound hlocal h.stops
  have hstops : s.lexicon.StopsUnescaped ∨ a'.saved = none :=
    h.stops.imp id fun hnone => hbatch.saved_eq_none hnone
  have hquiet : s.lexicon.hasRegions = false → a'.Quiet :=
    fun hregions => (h.quiet hregions).build hregions hbuild
  refine ⟨a', report, by rw [analyzeBatch, hbuild]; rfl, ?_,
    (hbatch.advances hf).callsLeft_lt hf hle⟩
  intro pacer
  rw [analyzed]
  by_cases hempty : report.range.isEmpty = true
  · rw [if_pos hempty]
    have hrev : report.range.stop ≤ report.range.start := of_decide_eq_true hempty
    refine ⟨h.paint.batch hlocal.isLawful htokens hsound hf hbatch (fun _ hx => hx) ?_ h.paint.upto,
      hstops, hquiet⟩
    intro x hx
    have h1 : report.range.start ≤ x := hx.1
    have h2 : x < report.range.stop := hx.2
    omega
  · rw [if_neg hempty]
    have hfull : report.range.start < report.range.stop :=
      Nat.not_le.1 fun hle => hempty (decide_eq_true hle)
    have hsnap : ∀ {x : Nat}, x ∈ report.range → x ∈ doc.snapToLines report.range ∧
        (doc.snapToLines report.range).stop ≤ doc.length := mem_snapToLines (hbatch.range_le hle)
    refine ⟨h.paint.batch hlocal.isLawful htokens hsound hf hbatch ?_ ?_ ?_, hstops, hquiet⟩
    · intro x hx
      exact ExtentSet.mem_insert (.inl hx)
    · intro x hx
      exact ExtentSet.mem_insert (.inr (hsnap hx).1)
    · exact h.paint.upto.insert (doc.length_eq ▸ (hsnap ⟨Nat.le_refl _, hfull⟩).2)

/-- The table holds up to an offset, or to the end. -/
def Reaches (s : Session) (upto : Nat) : Prop :=
  ∀ f, s.analysis.table.frontier = some f → upto ≤ f.offset

/-- The rounds suffice for all calls that are left. -/
theorem callsLeft_le (a : Analysis) (doc : Document) : a.callsLeft doc ≤ roundLimit doc := by
  rw [Analysis.callsLeft, roundLimit]
  split
  · omega
  · split <;> omega

/-- **Analysis on demand** gets as far as it was asked to. -/
theorem analyzeWithin_spec (htokens : lex.TokensLocal) (hlocal : lex.LineLocal) (upto : Nat)
    {rounds : Nat} (hlex : s.lexicon = lex) (h : s.InStep doc)
    (hrounds : s.analysis.callsLeft doc ≤ rounds) :
    (analyzeWithin doc upto rounds s).InStep doc ∧ s.Keeps (analyzeWithin doc upto rounds s) ∧
      (analyzeWithin doc upto rounds s).Reaches upto := by
  induction rounds generalizing s with
  | zero =>
      refine ⟨h, .refl s, ?_⟩
      intro f hf
      -- no call is left, so there can be no frontier
      have hf : s.analysis.table.frontier = some f := hf
      have hsome : s.analysis.callsLeft doc = doc.length + 1 - f.offset +
          if s.analysis.saved.isSome then doc.length + 1 else 0 := by
        rw [Analysis.callsLeft, hf]
      have hle := h.paint.table.reach_le
      rw [BoundaryTable.reach_of_some hf] at hle
      have hlen : doc.length = doc.chars.size := doc.length_eq
      omega
  | succ rounds ih =>
      rw [analyzeWithin]
      cases hf : s.analysis.table.frontier with
      | none =>
          rw [Option.any_none, if_neg Bool.false_ne_true]
          exact ⟨h, .refl s, fun f hf' => absurd (hf.symm.trans hf').symm (Option.some_ne_none f)⟩
      | some f =>
          rw [Option.any_some]
          by_cases hlt : f.offset < upto
          · rw [if_pos (decide_eq_true hlt)]
            obtain ⟨a', report, hbatch, hstep, hless⟩ :=
              h.batch (hlex ▸ htokens) (hlex ▸ hlocal) hf
            rw [hbatch]
            obtain ⟨hkeeps, hsame⟩ :=
              keeps_analyzed { s with analysis := a' } doc report.range
            obtain ⟨hrest, hkeeps', hreaches⟩ := ih (hkeeps.lexicon.trans hlex) (hstep s.pacer) (by
              rw [hsame]
              exact Nat.le_of_lt_succ (Nat.lt_of_lt_of_le hless hrounds))
            have hfirst : s.Keeps (analyzed { s with analysis := a' } doc report.range) :=
              ⟨hkeeps.lexicon, hkeeps.settings, hkeeps.enabled⟩
            exact ⟨hrest, hfirst.trans hkeeps', hreaches⟩
          · rw [if_neg (by simpa using hlt)]
            refine ⟨h, .refl s, ?_⟩
            intro f' hf'
            obtain rfl := Option.some.inj (hf.symm.trans hf')
            exact Nat.le_of_not_lt hlt

/-- Analysis on demand keeps the session in step and reaches as far as asked. -/
theorem InStep.ensureAnalyzed (h : s.InStep doc) (htokens : s.lexicon.TokensLocal)
    (hlocal : s.lexicon.LineLocal) (upto : Nat) :
    (s.ensureAnalyzed doc upto).InStep doc ∧ s.Keeps (s.ensureAnalyzed doc upto) ∧
      (s.ensureAnalyzed doc upto).Reaches upto :=
  analyzeWithin_spec htokens hlocal upto rfl h (callsLeft_le s.analysis doc)

/-- Rendering what is stale in a range that is analyzed leaves nothing stale there. -/
theorem InStep.renderStale (h : s.InStep doc) (htokens : s.lexicon.TokensLocal) {e : Extent}
    (hreach : e.stop ≤ s.analysis.table.reach doc.length ∨ s.analysis.table.frontier = none) :
    (s.renderStale doc e).InStep doc ∧ s.Keeps (s.renderStale doc e) ∧
      (s.renderStale doc e).analysis = s.analysis ∧
        ∀ x ∈ (s.renderStale doc e).staleness.dirty, x ∈ s.staleness.dirty ∧ x ∉ e := by
  obtain ⟨hpaint, hclean⟩ := h.paint.refresh htokens hreach
  exact ⟨⟨hpaint, h.stops, h.quiet⟩, ⟨rfl, rfl, rfl⟩, rfl, hclean⟩

/-- A table that reaches an offset holds up to there. -/
theorem Reaches.reach {upto : Nat} (h : s.Reaches upto) (len : Nat) :
    upto ≤ s.analysis.table.reach len ∨ s.analysis.table.frontier = none := by
  cases hf : s.analysis.table.frontier with
  | none => exact .inr rfl
  | some f =>
      rw [BoundaryTable.reach_of_some hf]
      exact .inl (h f hf)

/-- Making sure of a range leaves nothing stale there. -/
theorem InStep.ensureHighlighted (h : s.InStep doc) (htokens : s.lexicon.TokensLocal)
    (hlocal : s.lexicon.LineLocal) (henabled : s.enabled = true) (e : Extent) :
    (s.ensureHighlighted doc e).InStep doc ∧ s.Keeps (s.ensureHighlighted doc e) ∧
      (s.ensureHighlighted doc e).Reaches e.stop ∧
        ∀ x ∈ (s.ensureHighlighted doc e).staleness.dirty, x ∉ e := by
  obtain ⟨hstep, hkeeps, hreaches⟩ := h.ensureAnalyzed htokens hlocal e.stop
  obtain ⟨hstep', hkeeps', hsame, hclean⟩ := hstep.renderStale (hkeeps.lexicon ▸ htokens)
    (hreaches.reach doc.length)
  rw [Session.ensureHighlighted, if_pos henabled]
  refine ⟨hstep', hkeeps.trans hkeeps', ?_, fun x hx => (hclean x hx).2⟩
  intro f hf
  rw [hsame] at hf
  exact hreaches f hf

/-- The spans of a range, by drawing the whole text from all of its boundaries. -/
def reference (lex : Lexicon) (doc : Document) (range : Extent) : List Span :=
  (Paint.mk (render lex doc (lex.boundaries doc.chars 0 .outside) ⟨0, doc.length⟩)).query
    (range.clampTo doc.length)

/-- **Asking for spans** answers those of the whole text. -/
theorem InStep.highlight (h : s.InStep doc) (htokens : s.lexicon.TokensLocal)
    (hlocal : s.lexicon.LineLocal) (henabled : s.enabled = true) (range : Extent) :
    (s.highlight doc range).1.InStep doc ∧ s.Keeps (s.highlight doc range).1 ∧
      (s.highlight doc range).2 = reference s.lexicon doc range := by
  obtain ⟨hstep, hkeeps, hreaches, hclean⟩ := h.ensureHighlighted htokens hlocal henabled
    (doc.snapToLines (range.clampTo doc.length))
  rw [Session.highlight, if_pos henabled]
  refine ⟨hstep, hkeeps, ?_⟩
  have hascends : Ascends 0 (s.lexicon.boundaries doc.chars 0 .outside) :=
    .of_regular (Lexicon.regular_boundaries s.lexicon doc.chars 0 .outside)
  have hall : Laid 0 (Paint.mk (s.lexicon.drawing doc.chars
      (s.lexicon.boundaries doc.chars 0 .outside) 0 doc.length)).spans doc.length :=
    Lexicon.laid_drawing s.lexicon hascends (Nat.zero_le _) (Nat.le_of_eq doc.length_eq)
  rw [reference, render_eq htokens doc hascends (Nat.zero_le _) (Nat.le_refl _),
    Paint.query_eq hall]
  show (Session.ensureHighlighted s doc _).paint.query (range.clampTo doc.length) = _
  rw [Paint.query_eq hstep.paint.laid]
  have hstop : (range.clampTo doc.length).stop ≤ doc.length := Nat.min_le_right _ _
  generalize range.clampTo doc.length = e at hstep hkeeps hreaches hclean hstop
  by_cases hle : e.start ≤ e.stop
  · have hshows := hstep.paint.shows (hkeeps.lexicon ▸ hlocal.isLawful)
      (hkeeps.lexicon ▸ htokens) hle ?_ fun x hx hlt hin =>
      hclean x hin (mem_snapToLines hstop ⟨hx, hlt⟩).1
    · rw [hkeeps.lexicon, ← doc.length_eq] at hshows
      exact hshows
    · have hend := doc.le_lineEnd hstop
      have hfar : e.stop ≤ (doc.snapToLines e).stop := by
        rw [doc.snapToLines_eq hle hstop]
        show e.stop ≤ min (doc.lineEnd e.stop + 1) doc.length
        omega
      rw [← doc.length_eq]
      rcases hreaches.reach doc.length with hreach | hnone
      · exact Nat.le_trans hfar hreach
      · rw [BoundaryTable.reach_of_none hnone]
        exact hstop
  · rw [clipped_of_le (by omega), clipped_of_le (by omega)]

/-! ## Background work -/

/-- The batch of a quantum; the next is sized by how long it took. -/
def analyzeTimed (s : Session) (doc : Document) (nanoseconds : Nat) : Session :=
  match s.analyzeBatch doc with
  | some (s, report) =>
    analyzed { s with pacer := s.pacer.record report.processed nanoseconds } doc report.range
  | none => s

/-- A complete table is taken off the schedule. -/
def retire (s : Session) : Session :=
  if s.analysis.table.isComplete then { s with pacer := s.pacer.cancel } else s

/-- A scheduled quantum is a timed batch, and then complete tables are retired. -/
theorem analyzeScheduled_eq (s : Session) (doc : Document) (nanoseconds : Nat) :
    s.analyzeScheduled doc nanoseconds =
      if s.pacer.armed then (s.analyzeTimed doc nanoseconds).retire else s := rfl

theorem InStep.retire (h : s.InStep doc) : s.retire.InStep doc ∧ s.Keeps s.retire := by
  rw [Session.retire]
  split
  · exact ⟨⟨h.paint, h.stops, h.quiet⟩, ⟨rfl, rfl, rfl⟩⟩
  · exact ⟨h, .refl s⟩

theorem InStep.analyzeTimed (h : s.InStep doc) (htokens : s.lexicon.TokensLocal)
    (hlocal : s.lexicon.LineLocal) (nanoseconds : Nat) :
    (s.analyzeTimed doc nanoseconds).InStep doc ∧ s.Keeps (s.analyzeTimed doc nanoseconds) := by
  rw [Session.analyzeTimed]
  cases hf : s.analysis.table.frontier with
  | none =>
      have hnone : s.analyzeBatch doc = none := by
        rw [analyzeBatch, Analysis.build_of_none hf]
        rfl
      rw [hnone]
      exact ⟨h, .refl s⟩
  | some f =>
      obtain ⟨a', report, hbatch, hstep, -⟩ := h.batch htokens hlocal hf
      rw [hbatch]
      obtain ⟨hkeeps, -⟩ := keeps_analyzed
        { s with analysis := a', pacer := s.pacer.record report.processed nanoseconds } doc
        report.range
      exact ⟨hstep _, ⟨hkeeps.lexicon, hkeeps.settings, hkeeps.enabled⟩⟩

theorem InStep.analyzeScheduled (h : s.InStep doc) (htokens : s.lexicon.TokensLocal)
    (hlocal : s.lexicon.LineLocal) (nanoseconds : Nat) :
    (s.analyzeScheduled doc nanoseconds).InStep doc ∧
      s.Keeps (s.analyzeScheduled doc nanoseconds) := by
  rw [analyzeScheduled_eq]
  split
  · obtain ⟨hstep, hkeeps⟩ := h.analyzeTimed htokens hlocal nanoseconds
    obtain ⟨hstep', hkeeps'⟩ := hstep.retire
    exact ⟨hstep', hkeeps.trans hkeeps'⟩
  · exact ⟨h, .refl s⟩

/-- Rendering of one wanted range, no further than analysis has got. -/
def renderUpTo (doc : Document) (reach : Nat) (s : Session) (range : Extent) : Session :=
  if range.start < min range.stop reach then s.renderStale doc ⟨range.start, min range.stop reach⟩
  else s

/-- What is wanted is rendered range by range, as far as the table holds. -/
theorem renderRequested_eq (s : Session) (doc : Document) : s.renderRequested doc =
    s.staleness.pending.foldl (renderUpTo doc (s.analysis.table.reach doc.length)) s := rfl

/-- Rendering as far as the table holds keeps the session in step. -/
theorem InStep.renderUpTo (h : s.InStep doc) (htokens : s.lexicon.TokensLocal) {reach : Nat}
    (hreach : reach ≤ s.analysis.table.reach doc.length) (range : Extent) :
    (s.renderUpTo doc reach range).InStep doc ∧ s.Keeps (s.renderUpTo doc reach range) ∧
      (s.renderUpTo doc reach range).analysis = s.analysis := by
  rw [Session.renderUpTo]
  split
  · have hstop := Nat.le_trans (Nat.min_le_right range.stop reach) hreach
    obtain ⟨hstep, hkeeps, hsame, -⟩ := h.renderStale htokens
      (e := ⟨range.start, min range.stop reach⟩) (.inl hstop)
    exact ⟨hstep, hkeeps, hsame⟩
  · exact ⟨h, .refl s, rfl⟩

theorem InStep.renderRequested (h : s.InStep doc) (htokens : s.lexicon.TokensLocal) :
    (s.renderRequested doc).InStep doc ∧ s.Keeps (s.renderRequested doc) := by
  rw [renderRequested_eq]
  have hloop := List.foldlRecOn
    (motive := fun t => t.InStep doc ∧ s.Keeps t ∧ t.analysis = s.analysis) s.staleness.pending
    (Session.renderUpTo doc (s.analysis.table.reach doc.length)) ⟨h, .refl s, rfl⟩ ?_
  · exact ⟨hloop.1, hloop.2.1⟩
  · rintro t ⟨hstep, hkeeps, hsame⟩ range -
    obtain ⟨hstep', hkeeps', hsame'⟩ := hstep.renderUpTo (hkeeps.lexicon ▸ htokens)
      (Nat.le_of_eq (by rw [hsame])) range
    exact ⟨hstep', hkeeps.trans hkeeps', hsame'.trans hsame⟩

/-- A quantum keeps the session in step. -/
theorem InStep.runBackground (h : s.InStep doc) (htokens : s.lexicon.TokensLocal)
    (hlocal : s.lexicon.LineLocal) (nanoseconds : Nat) :
    (s.runBackground doc nanoseconds).1.InStep doc ∧
      s.Keeps (s.runBackground doc nanoseconds).1 := by
  rw [Session.runBackground]
  split
  · obtain ⟨hstep, hkeeps⟩ := h.analyzeScheduled htokens hlocal nanoseconds
    obtain ⟨hstep', hkeeps'⟩ := hstep.renderRequested (hkeeps.lexicon ▸ htokens)
    exact ⟨hstep', hkeeps.trans hkeeps'⟩
  · exact ⟨h, .refl s⟩

/-! ## Brackets -/

/-- Where analysis has been asked to get to, offsets are governed as in the whole text. -/
theorem InStep.tagAt?_ensured (h : s.InStep doc) (htokens : s.lexicon.TokensLocal)
    (hlocal : s.lexicon.LineLocal) {upto o : Nat} (ho : o < upto) (hlen : o < doc.length) :
    tagAt? (s.ensureAnalyzed doc upto).analysis.table.entries o =
      tagAt? (s.lexicon.boundaries doc.chars 0 .outside) o := by
  obtain ⟨hstep, hkeeps, hreaches⟩ := h.ensureAnalyzed htokens hlocal upto
  have hin : o < (s.ensureAnalyzed doc upto).analysis.table.reach doc.chars.size := by
    rcases hreaches.reach doc.chars.size with hle | hnone
    · exact Nat.lt_of_lt_of_le ho hle
    · rw [BoundaryTable.reach_of_none hnone, ← doc.length_eq]
      exact hlen
  have hlawful := hlocal.isLawful
  rw [← hkeeps.lexicon] at hlawful
  rw [hstep.paint.table.tagAt?_eq hlawful hin, hkeeps.lexicon]

/-- **Matching a bracket** goes by the regions of the whole text. -/
theorem InStep.matchingBracket (h : s.InStep doc) (htokens : s.lexicon.TokensLocal)
    (hlocal : s.lexicon.LineLocal) (henabled : s.enabled = true) (pos : Nat)
    (limit : Option Nat) :
    (s.matchingBracket doc pos limit).1.InStep doc ∧
      s.Keeps (s.matchingBracket doc pos limit).1 ∧
      (s.matchingBracket doc pos limit).2 = matchingBracket? doc pos limit
        (tagAt? (s.lexicon.boundaries doc.chars 0 .outside)) := by
  rw [Session.matchingBracket, henabled, Bool.true_and]
  by_cases hregions : s.lexicon.hasRegions = true
  · rw [if_pos hregions]
    cases limit with
    | none =>
        obtain ⟨hstep, hkeeps, -⟩ := h.ensureAnalyzed htokens hlocal doc.length
        refine ⟨hstep, hkeeps, matchingBracket?_congr fun o o' ho ho' _ _ => ?_⟩
        rw [h.tagAt?_ensured htokens hlocal ho ho, h.tagAt?_ensured htokens hlocal ho' ho']
    | some l =>
        obtain ⟨hstep, hkeeps, -⟩ := h.ensureAnalyzed htokens hlocal (min (pos + l) doc.length)
        refine ⟨hstep, hkeeps, matchingBracket?_congr fun o o' ho ho' hlimit horigin => ?_⟩
        have hnear := hlimit l rfl
        rw [h.tagAt?_ensured htokens hlocal (Nat.lt_min.2 ⟨hnear, ho⟩) ho,
          h.tagAt?_ensured htokens hlocal (Nat.lt_min.2 ⟨by omega, ho'⟩) ho']
  · rw [if_neg hregions]
    refine ⟨h, .refl s, matchingBracket?_congr fun o o' _ _ _ _ => ?_⟩
    -- without regions no offset is told apart from another
    rw [Lexicon.boundaries_of_not_hasRegions (Bool.eq_false_iff.2 hregions)]
    exact ⟨fun _ => rfl, fun _ => rfl⟩

/-! ## Runs of calls -/

/-- A call that changes no text. -/
inductive Call where
  | highlight (range : Extent)
  | ensureHighlighted (range : Extent)
  | request (range : Extent)
  | clearRequested
  | runBackground (nanoseconds : Nat)
  | matchingBracket (pos : Nat) (limit : Option Nat)

/-- A session after a call. -/
def Call.apply (doc : Document) (s : Session) : Call → Session
  | .highlight range => (s.highlight doc range).1
  | .ensureHighlighted range => s.ensureHighlighted doc range
  | .request range => s.request range
  | .clearRequested => s.clearRequested
  | .runBackground nanoseconds => (s.runBackground doc nanoseconds).1
  | .matchingBracket pos limit => (s.matchingBracket doc pos limit).1

/-- Every call keeps a session in step. -/
theorem InStep.call (h : s.InStep doc) (htokens : s.lexicon.TokensLocal)
    (hlocal : s.lexicon.LineLocal) (henabled : s.enabled = true) (c : Call) :
    (c.apply doc s).InStep doc ∧ s.Keeps (c.apply doc s) := by
  cases c with
  | highlight range =>
      obtain ⟨hstep, hkeeps, -⟩ := h.highlight htokens hlocal henabled range
      exact ⟨hstep, hkeeps⟩
  | ensureHighlighted range =>
      obtain ⟨hstep, hkeeps, -⟩ := h.ensureHighlighted htokens hlocal henabled range
      exact ⟨hstep, hkeeps⟩
  | request range => exact ⟨⟨h.paint, h.stops, h.quiet⟩, ⟨rfl, rfl, rfl⟩⟩
  | clearRequested => exact ⟨⟨h.paint, h.stops, h.quiet⟩, ⟨rfl, rfl, rfl⟩⟩
  | runBackground nanoseconds => exact h.runBackground htokens hlocal nanoseconds
  | matchingBracket pos limit =>
      obtain ⟨hstep, hkeeps, -⟩ := h.matchingBracket htokens hlocal henabled pos limit
      exact ⟨hstep, hkeeps⟩

/-- Calls that change no text keep the session in step. -/
theorem InStep.calls (h : s.InStep doc) (htokens : s.lexicon.TokensLocal)
    (hlocal : s.lexicon.LineLocal) (henabled : s.enabled = true) (calls : List Call) :
    (calls.foldl (Call.apply doc) s).InStep doc ∧ s.Keeps (calls.foldl (Call.apply doc) s) := by
  induction calls generalizing s with
  | nil => exact ⟨h, .refl s⟩
  | cons c rest ih =>
      obtain ⟨hstep, hkeeps⟩ := h.call htokens hlocal henabled c
      obtain ⟨hrest, hkeeps'⟩ := ih hstep (hkeeps.lexicon ▸ htokens) (hkeeps.lexicon ▸ hlocal)
        (hkeeps.enabled.trans henabled)
      exact ⟨hrest, hkeeps.trans hkeeps'⟩

/-- Starting over keeps the grammar and the settings. -/
theorem keeps_rebuild (s : Session) (doc : Document) : s.Keeps (s.rebuild doc) := by
  rw [rebuild]
  dsimp only
  split
  · exact ⟨rfl, rfl, rfl⟩
  · exact ⟨rfl, rfl, rfl⟩

/-- A session that starts over is in step: nothing is analyzed and all is stale. -/
theorem inStep_rebuild (doc : Document) (henabled : s.enabled = true) :
    (s.rebuild doc).InStep doc := by
  have hrebuild : s.rebuild doc = notify { s with
      analysis := .fresh, paint := .empty, pacer := s.pacer.arm
      staleness := s.staleness.clearDirty.mark ⟨0, doc.length⟩ } ⟨0, doc.length⟩ := by
    rw [rebuild]
    simp only [henabled, if_true]
  rw [hrebuild]
  exact ⟨inStep_fresh s.lexicon (Nat.zero_le _)
    ((ExtentSet.upto_empty _).insert (Nat.le_of_eq doc.length_eq)), .inr rfl, fun _ => .inl rfl⟩

/-- **Neither order nor size of the work shows.**  After any calls a session answers the spans that
    drawing the whole text from all of its boundaries gives, and matches brackets by the regions of
    the whole text. -/
theorem answers_independent_of_calls (s : Session) (henabled : s.enabled = true) (g : Grammar)
    (htokens : (Lexicon.ofGrammar g).TokensLocal) (hlocal : (Lexicon.ofGrammar g).LineLocal)
    (doc : Document) (calls : List Call) :
    (∀ range, ((calls.foldl (Call.apply doc) (s.setGrammar doc g)).highlight doc range).2 =
      reference (.ofGrammar g) doc range) ∧
    ∀ pos limit,
      ((calls.foldl (Call.apply doc) (s.setGrammar doc g)).matchingBracket doc pos limit).2 =
        matchingBracket? doc pos limit
          (tagAt? ((Lexicon.ofGrammar g).boundaries doc.chars 0 .outside)) := by
  have hstart : (s.setGrammar doc g).InStep doc := inStep_rebuild doc henabled
  obtain ⟨hlexicon, -, hon⟩ : Keeps { s with lexicon := .ofGrammar g } (s.setGrammar doc g) :=
    keeps_rebuild _ doc
  have hon := hon.trans henabled
  obtain ⟨hstep, hkeeps⟩ := hstart.calls (hlexicon ▸ htokens) (hlexicon ▸ hlocal) hon calls
  have hlex := hkeeps.lexicon.trans hlexicon
  have hon' := hkeeps.enabled.trans hon
  refine ⟨?_, ?_⟩
  · intro range
    rw [(hstep.highlight (hlex ▸ htokens) (hlex ▸ hlocal) hon' range).2.2, hlex]
  · intro pos limit
    rw [(hstep.matchingBracket (hlex ▸ htokens) (hlex ▸ hlocal) hon' pos limit).2.2, hlex]

/-- Two calls, the second with the list of the first still open. -/
theorem answers_independent_of_calls_lisp : (start {}).enabled = true ∧
    (Lexicon.ofGrammar .lisp).TokensLocal ∧ (Lexicon.ofGrammar .lisp).LineLocal ∧
    (∀ range, (([Call.highlight ⟨0, 1⟩, .matchingBracket 1 none].foldl (Call.apply .escapedList)
        ((start {}).setGrammar .escapedList .lisp)).highlight .escapedList range).2 =
      reference (.ofGrammar .lisp) .escapedList range) ∧
    ∀ pos limit, (([Call.highlight ⟨0, 1⟩, .matchingBracket 1 none].foldl (Call.apply .escapedList)
        ((start {}).setGrammar .escapedList .lisp)).matchingBracket .escapedList pos limit).2 =
      matchingBracket? .escapedList pos limit (tagAt? [.opening 0 1, .closing 6]) := by
  rw [← Grammar.boundaries_escapedList]
  exact ⟨rfl, Lexicon.tokensLocal_lisp, Grammar.lineLocal_lisp,
    answers_independent_of_calls (start {}) rfl .lisp Lexicon.tokensLocal_lisp
      Grammar.lineLocal_lisp _ _⟩

end Session

end Highlighter
