import Highlighter.Proofs.Brackets
import Highlighter.Proofs.Notices
import Highlighter.Proofs.WordAnalysis
import Highlighter.Proofs.WordRendering

/-! # Sessions in words — what calls and edits overflow by

    Three things can fail to fit.  An insertion moves a range that was asked for, which may
    end anywhere (`Outgrows`); a batch may be too large for where it starts (`Overshoots`);
    and each render pass is counted (`Worn`).  All other offsets of a session are offsets of
    its text, and the number of brackets that are open is at most that of its chars. -/

namespace Highlighter

namespace Session

variable {s s' s'' : Session} {doc : Document}

/-- There have been more render passes than can be counted. -/
def Worn (s : Session) : Prop := wordLimit ≤ s.staleness.renders

/-- One of the batches that analysis up to `upto` takes overshoots. -/
def Overruns (doc : Document) (upto : Nat) : (rounds : Nat) → Session → Prop
  | 0, _ => False
  | rounds + 1, s =>
    s.analysis.table.frontier.any (fun f => f.offset < upto) = true ∧
      (s.analysis.Overshoots s.lexicon doc s.pacer.batch ∨
        ∃ s' report, s.analyzeBatch doc = some (s', report) ∧
          Overruns doc upto rounds (s'.analyzed doc report.range))

/-- The batch of the next quantum overshoots. -/
def QuantumOvershoots (s : Session) (doc : Document) : Prop :=
  s.enabled = true ∧ s.pacer.armed = true ∧
    s.analysis.Overshoots s.lexicon doc s.pacer.batch

/-- One of these quanta overflows. -/
def QuantaOverflow (doc : Document) : (times : List Nat) → Session → Prop
  | [], _ => False
  | nanoseconds :: rest, s =>
    (s.QuantumOvershoots doc ∨ (s.runBackground doc nanoseconds).1.Worn) ∨
      QuantaOverflow doc rest (s.runBackground doc nanoseconds).1

/-! ## What is counted -/

/-- Analysis and edits leave the length of quanta and the number of passes as they are. -/
structure Steady (s s' : Session) : Prop where
  slice   : s'.pacer.slice = s.pacer.slice
  renders : s'.staleness.renders = s.staleness.renders

namespace Steady

theorem refl (s : Session) : s.Steady s := ⟨rfl, rfl⟩

/-- What two steps leave as it is both leave together. -/
theorem trans (h : s.Steady s') (h' : s'.Steady s'') : s.Steady s'' :=
  ⟨h'.slice.trans h.slice, h'.renders.trans h.renders⟩

theorem analyzed (s : Session) (doc : Document) (range : Extent) :
    s.Steady (s.analyzed doc range) := by
  rw [Session.analyzed]
  split
  · exact refl s
  · exact ⟨rfl, rfl⟩

theorem analyzeBatch {report : BuildReport} (h : s.analyzeBatch doc = some (s', report)) :
    s.Steady s' := by
  obtain ⟨⟨a, report⟩, -, hs'⟩ := Option.map_eq_some_iff.1 h
  obtain ⟨rfl, -⟩ := Prod.mk.inj hs'
  exact ⟨rfl, rfl⟩

theorem analyzeWithin (s : Session) (doc : Document) (upto rounds : Nat) :
    s.Steady (Session.analyzeWithin doc upto rounds s) := by
  induction rounds generalizing s with
  | zero => exact refl s
  | succ rounds ih =>
      rw [Session.analyzeWithin]
      split
      · split
        next s' report hbatch =>
          exact (analyzeBatch hbatch).trans ((analyzed s' doc report.range).trans (ih _))
        next => exact refl s
      · exact refl s

theorem ensureAnalyzed (s : Session) (doc : Document) (upto : Nat) :
    s.Steady (s.ensureAnalyzed doc upto) := analyzeWithin s doc upto _

theorem record (s : Session) (processed nanoseconds : Nat) :
    s.Steady { s with pacer := s.pacer.record processed nanoseconds } := by
  rw [Pacer.record]
  split
  · exact refl s
  · exact ⟨rfl, rfl⟩

theorem analyzeScheduled (s : Session) (doc : Document) (nanoseconds : Nat) :
    s.Steady (s.analyzeScheduled doc nanoseconds) := by
  have htimed : s.Steady (s.analyzeTimed doc nanoseconds) := by
    rw [Session.analyzeTimed]
    split
    next s' report hbatch =>
      exact (analyzeBatch hbatch).trans ((record s' _ nanoseconds).trans (analyzed _ doc _))
    next => exact refl s
  rw [analyzeScheduled_eq]
  split
  · refine htimed.trans ?_
    rw [retire]
    split
    · exact ⟨rfl, rfl⟩
    · exact refl _
  · exact refl s

theorem applyEdit (s : Session) (doc : Document) (e : Edit) : s.Steady (s.applyEdit doc e) := by
  rw [Session.applyEdit, repair]
  split
  · split
    · split
      · exact ⟨rfl, rfl⟩
      · exact ⟨rfl, rfl⟩
    · exact ⟨rfl, rfl⟩
  · exact refl s

theorem rebuild (s : Session) (doc : Document) : s.Steady (s.rebuild doc) := by
  rw [Session.rebuild]
  dsimp only
  split
  · exact ⟨rfl, rfl⟩
  · exact ⟨rfl, rfl⟩

end Steady

/-- The length of quanta, in words, and the number of passes. -/
structure Fits (s : Session) : Prop where
  slice : s.pacer.slice < wordLimit
  fresh : ¬s.Worn

/-- A steady step keeps a session within words. -/
theorem Fits.steady (h : s.Fits) (hsteady : s.Steady s') : s'.Fits where
  slice := hsteady.slice ▸ h.slice
  fresh hworn := h.fresh (hworn.trans_eq hsteady.renders)

/-- A quantum leaves the length of quanta as it is. -/
theorem slice_runBackground (s : Session) (doc : Document) (nanoseconds : Nat) :
    (s.runBackground doc nanoseconds).1.pacer.slice = s.pacer.slice := by
  rw [runBackground]
  split
  · have hframe := (renderRequested_frame (s.analyzeScheduled doc nanoseconds) doc).2
    exact (congrArg Pacer.slice hframe).trans (Steady.analyzeScheduled s doc nanoseconds).slice
  · rfl

/-- What a quantum leaves fits, unless it overflows. -/
theorem Fits.runBackground (h : s.Fits) {nanoseconds : Nat}
    (hgood : ¬(s.QuantumOvershoots doc ∨ (s.runBackground doc nanoseconds).1.Worn)) :
    (s.runBackground doc nanoseconds).1.Fits := by
  refine ⟨?_, (not_or.1 hgood).2⟩
  rw [slice_runBackground]
  exact h.slice

/-- With no work left no quantum overflows. -/
theorem Fits.not_quantaOverflow (h : s.Fits) (hidle : s.hasPendingWork = false)
    (times : List Nat) : ¬s.QuantaOverflow doc times := by
  induction times with
  | nil => exact id
  | cons nanoseconds rest ih =>
      rw [QuantaOverflow, runBackground_of_idle hidle]
      rintro ((⟨henabled, harmed, -⟩ | hworn) | hrest)
      · rw [hasPendingWork, henabled, harmed] at hidle
        exact absurd hidle (by simp)
      · exact h.fresh hworn
      · exact ih hrest

/-- To drain takes no more quanta than are allowed. -/
theorem drain_count_le {nanoseconds quanta n : Nat}
    (h : drain doc nanoseconds quanta s = some (s', n)) : n ≤ quanta := by
  induction quanta generalizing s s' n with
  | zero =>
      rw [drain] at h
      split at h
      · exact absurd h.symm (Option.some_ne_none _)
      · exact Nat.le_of_eq (Prod.mk.inj (Option.some.inj h)).2.symm
  | succ quanta ih =>
      rw [drain_succ] at h
      split at h
      · split at h
        · obtain ⟨⟨t, m⟩, hrest, heq⟩ := Option.map_eq_some_iff.1 h
          obtain ⟨-, rfl⟩ := Prod.mk.inj heq
          exact Nat.succ_le_succ (ih hrest)
        · obtain ⟨-, rfl⟩ := Prod.mk.inj (Option.some.inj h)
          exact Nat.succ_le_succ (Nat.zero_le quanta)
      · obtain ⟨-, rfl⟩ := Prod.mk.inj (Option.some.inj h)
        exact Nat.zero_le _

/-- Rendering only counts. -/
theorem worn_renderStale (h : s.Worn) (doc : Document) (range : Extent) :
    (s.renderStale doc range).Worn :=
  Nat.le_trans h (Word.renders_refresh_le _ _ _)

end Session

namespace Word

variable {doc : Document} {s : Session}

/-! ## Analysis on demand -/

section Analysis

variable (hsmall : doc.length < textLimit)

include hsmall

theorem analyzed_eq (s : Session) (range : Extent) :
    analyzed doc s range = .ok (s.analyzed doc range) := by
  rw [analyzed, Session.analyzed]
  split
  · rfl
  · rw [snapToLines_eq hsmall]
    rfl

/-- A batch overflows when it overshoots. -/
theorem computes_analyzeBatch (s : Session) :
    Computes (analyzeBatch doc s) (s.analyzeBatch doc)
      (s.analysis.Overshoots s.lexicon doc s.pacer.batch) :=
  (computes_build hsmall s.analysis s.pacer.batch).map _

/-- **Analysis on demand** overflows by the end of a batch. -/
theorem computes_analyzeWithin (upto rounds : Nat) (s : Session) :
    Computes (analyzeWithin doc upto rounds s) (Session.analyzeWithin doc upto rounds s)
      (s.Overruns doc upto rounds) := by
  induction rounds generalizing s with
  | zero => exact .of_ok rfl id
  | succ rounds ih =>
      rw [analyzeWithin, Session.analyzeWithin, Session.Overruns]
      by_cases hshort : (s.analysis.table.frontier.any fun f => f.offset < upto) = true
      · rw [if_pos hshort, if_pos hshort]
        refine Computes.congr (Computes.bind (computes_analyzeBatch hsmall s) ?_)
          (and_iff_right hshort).symm
        intro _
        cases hbatch : s.analyzeBatch doc with
        | none =>
            refine .of_ok rfl ?_
            rintro ⟨_, _, hsome, _⟩
            exact absurd hsome.symm (Option.some_ne_none _)
        | some done =>
            obtain ⟨s', report⟩ := done
            dsimp only
            rw [analyzed_eq hsmall, ok_bind]
            refine Computes.congr (ih _) ⟨fun hbad => ⟨s', report, rfl, hbad⟩, ?_⟩
            rintro ⟨s'', report', hsome, hbad⟩
            obtain ⟨rfl, rfl⟩ := Prod.mk.inj (Option.some.inj hsome)
            exact hbad
      · rw [if_neg hshort, if_neg hshort]
        exact .of_ok rfl fun hbad => hshort hbad.1

/-- Analysis on demand overflows when one of its batches overshoots. -/
theorem computes_ensureAnalyzed (s : Session) (upto : Nat) :
    Computes (ensureAnalyzed doc s upto) (s.ensureAnalyzed doc upto)
      (s.Overruns doc upto (Session.roundLimit doc)) :=
  computes_analyzeWithin hsmall upto _ s

/-! ## Rendering on demand -/

/-- Rendering overflows when the passes cannot be counted any more. -/
theorem computes_renderStale (hbounded : s.Bounded doc) (henabled : s.enabled = true)
    (hfresh : ¬s.Worn) (range : Extent) :
    Computes (renderStale doc s range) (s.renderStale doc range) (s.renderStale doc range).Worn := by
  have hreach := (hbounded.analysis henabled).reach_le
  have hrefresh := @computes_refresh _ _ _ _ _ range hbounded.upto (Nat.lt_of_not_le hfresh)
    (@renderPart_eq s.lexicon doc hsmall s.analysis.table hreach) s.paint
  exact hrefresh.map fun done => { s with staleness := done.1, paint := done.2.1 }

/-- **Highlighting a range** overflows by the end of a batch, and by the number of passes. -/
theorem computes_ensureHighlighted (hbounded : s.Bounded doc) (hfresh : ¬s.Worn) (range : Extent) :
    Computes (ensureHighlighted doc s range) (s.ensureHighlighted doc range)
      (s.enabled = true ∧ s.Overruns doc range.stop (Session.roundLimit doc) ∨
        (s.ensureHighlighted doc range).Worn) := by
  rw [ensureHighlighted, Session.ensureHighlighted]
  by_cases henabled : s.enabled = true
  · rw [if_pos henabled, if_pos henabled, and_iff_right henabled]
    have hanalyzed := hbounded.ensureAnalyzed henabled range.stop
    have hsteady := Session.Steady.ensureAnalyzed s doc range.stop
    refine Computes.bind (computes_ensureAnalyzed hsmall s range.stop) fun _ =>
      computes_renderStale hsmall hanalyzed.bounded (hanalyzed.keeps.enabled.trans henabled) ?_ range
    rwa [Session.Worn, hsteady.renders]
  · rw [if_neg henabled, if_neg henabled]
    exact .of_ok rfl fun hbad => hbad.elim (fun hon => henabled hon.1) hfresh

/-- A request for spans overflows in its analysis or in counting its passes. -/
theorem computes_highlight (hbounded : s.Bounded doc) (hfresh : ¬s.Worn) (range : Extent) :
    Computes (highlight doc s range) (s.highlight doc range)
      (s.enabled = true ∧ s.Overruns doc (doc.snapToLines (range.clampTo doc.length)).stop
        (Session.roundLimit doc) ∨ (s.highlight doc range).1.Worn) := by
  rw [highlight, Session.highlight]
  by_cases henabled : s.enabled = true
  · rw [if_pos henabled, if_pos henabled]
    dsimp only
    rw [snapToLines_eq hsmall, ok_bind]
    exact (computes_ensureHighlighted hsmall hbounded hfresh _).map fun s =>
      (s, s.paint.query (range.clampTo doc.length))
  · rw [if_neg henabled, if_neg henabled]
    exact .of_ok rfl fun hbad => hbad.elim (fun hon => henabled hon.1) hfresh

/-! ## Background work -/

/-- The product that sizes a batch fits in two words. -/
theorem record_eq {p : Pacer} (hslice : p.slice < wordLimit) {processed : Nat}
    (hprocessed : processed ≤ doc.length) (nanoseconds : Nat) :
    record p processed nanoseconds = .ok (p.record processed nanoseconds) := by
  rw [record, Pacer.record]
  split
  · rfl
  · have hword : processed < wordLimit := lt_wordLimit (by omega)
    have hproduct : mulWide processed p.slice = .ok (processed * p.slice) :=
      if_pos (Nat.mul_lt_mul'' hword hslice)
    rw [hproduct]
    rfl

/-- Scheduled analysis overflows when its batch overshoots. -/
theorem computes_analyzeScheduled (hfits : s.Fits) (nanoseconds : Nat) :
    Computes (analyzeScheduled doc s nanoseconds) (s.analyzeScheduled doc nanoseconds)
      (s.pacer.armed = true ∧ s.analysis.Overshoots s.lexicon doc s.pacer.batch) := by
  rw [analyzeScheduled, Session.analyzeScheduled]
  by_cases harmed : s.pacer.armed = true
  · rw [if_pos harmed, if_pos harmed, and_iff_right harmed]
    refine Computes.bind_ok (computes_analyzeBatch hsmall s) ?_
    intro _
    cases hbatch : s.analyzeBatch doc with
    | none => rfl
    | some done =>
        obtain ⟨s', report⟩ := done
        obtain ⟨⟨a, report'⟩, hbuild, hs'⟩ := Option.map_eq_some_iff.1 hbatch
        obtain ⟨rfl, rfl⟩ := Prod.mk.inj hs'
        have hprocessed := processed_build_le hbuild
        dsimp only
        rw [record_eq hsmall hfits.slice hprocessed, ok_bind, analyzed_eq hsmall, ok_bind]
        rfl
  · rw [if_neg harmed, if_neg harmed]
    exact .of_ok rfl fun hbad => harmed hbad.1

/-- Rendering what is wanted overflows when the passes cannot be counted any more. -/
theorem computes_renderRequested (hbounded : s.Bounded doc) (henabled : s.enabled = true)
    (hfresh : ¬s.Worn) :
    Computes (renderRequested doc s) (s.renderRequested doc) (s.renderRequested doc).Worn := by
  rw [renderRequested, Session.renderRequested_eq]
  dsimp only
  refine Computes.foldlM (fun t => t.Bounded doc ∧ t.enabled = true) Session.Worn ?_ ?_
    ⟨hbounded, henabled⟩ hfresh
  · rintro t ⟨hbounded, henabled⟩ hfresh range -
    have hpass := hbounded.renderUpTo henabled (s.analysis.table.reach doc.length) range
    refine ⟨?_, hpass.bounded, hpass.keeps.enabled.trans henabled⟩
    rw [Session.renderUpTo]
    split
    · exact computes_renderStale hsmall hbounded henabled hfresh _
    · exact .of_ok rfl hfresh
  · intro t range hworn
    rw [Session.renderUpTo]
    split
    · exact Session.worn_renderStale hworn doc _
    · exact hworn

/-- **A quantum** overflows by the end of its batch, and by the number of passes. -/
theorem computes_runBackground (hbounded : s.Bounded doc) (hfits : s.Fits) (nanoseconds : Nat) :
    Computes (runBackground doc s nanoseconds) (s.runBackground doc nanoseconds)
      (s.QuantumOvershoots doc ∨ (s.runBackground doc nanoseconds).1.Worn) := by
  rw [runBackground, Session.runBackground, Session.QuantumOvershoots]
  by_cases henabled : s.enabled = true
  · rw [if_pos henabled, if_pos henabled, and_iff_right henabled]
    have hanalyzed := hbounded.analyzeScheduled henabled nanoseconds
    have hsteady := Session.Steady.analyzeScheduled s doc nanoseconds
    refine Computes.bind (computes_analyzeScheduled hsmall hfits nanoseconds) fun _ =>
      Computes.map (computes_renderRequested hsmall hanalyzed.bounded
        (hanalyzed.keeps.enabled.trans henabled) (hfits.steady hsteady).fresh) fun s =>
          (s, s.hasPendingWork)
  · rw [if_neg henabled, if_neg henabled]
    exact .of_ok rfl fun hbad => hbad.elim (fun hon => henabled hon.1) hfits.fresh

/-- Quanta overflow when one of them does. -/
theorem computes_quanta (hbounded : s.Bounded doc) (hfits : s.Fits) (times : List Nat) :
    Computes (times.foldlM (fun s nanoseconds => do return (← runBackground doc s nanoseconds).1) s)
      (s.quanta doc times) (s.QuantaOverflow doc times) := by
  induction times generalizing s with
  | nil => exact .of_ok rfl id
  | cons nanoseconds rest ih =>
      rw [List.foldlM_cons, Session.quanta, List.foldl_cons, Session.QuantaOverflow]
      exact Computes.bind ((computes_runBackground hsmall hbounded hfits nanoseconds).map _)
        fun hgood => ih (hbounded.runBackground nanoseconds).bounded (hfits.runBackground hgood)

/-- **Draining** overflows when one of its quanta does; there are fewer than words. -/
theorem computes_drain (hbounded : s.Bounded doc) (hfits : s.Fits) (nanoseconds : Nat)
    {quanta : Nat} (hquanta : quanta < wordLimit) :
    Computes (drain doc nanoseconds quanta s) (Session.drain doc nanoseconds quanta s)
      (s.QuantaOverflow doc (List.replicate quanta nanoseconds)) := by
  induction quanta generalizing s with
  | zero => exact .of_ok rfl id
  | succ quanta ih =>
      rw [drain, Session.drain, List.replicate_succ, Session.QuantaOverflow]
      by_cases hpending : s.hasPendingWork = true
      · rw [if_pos hpending, if_pos hpending]
        refine Computes.bind (computes_runBackground hsmall hbounded hfits nanoseconds)
          fun hgood => ?_
        have hfits' := hfits.runBackground hgood
        have hnext := ih (hbounded.runBackground nanoseconds).bounded hfits'
          (Nat.lt_of_succ_lt hquanta)
        have hmore := (Session.runBackground_snd s doc nanoseconds).symm
        generalize s.runBackground doc nanoseconds = quantum at hfits' hnext hmore ⊢
        obtain ⟨t, more⟩ := quantum
        -- once no work is left the loop ends, and no later quantum would overflow
        cases more with
        | true =>
            refine Computes.bind_ok hnext ?_
            intro _
            dsimp only
            cases hrest : Session.drain doc nanoseconds quanta t with
            | none => rfl
            | some done =>
                have hcount := Session.drain_count_le hrest
                dsimp only
                rw [add_eq_ok (by omega)]
                rfl
        | false => exact .of_ok rfl (hfits'.not_quantaOverflow hmore _)
      · rw [if_neg hpending, if_neg hpending]
        refine .of_ok rfl ?_
        exact hfits.not_quantaOverflow (Bool.eq_false_iff.2 hpending) (nanoseconds :: _)

end Analysis

/-! ## Brackets -/

section Brackets

variable {κ : Type} [DecidableEq κ]

/-- There are no more open brackets than chars scanned. -/
theorem scanPartner_eq (classAt : Nat → κ) (bracket other : Char) (kind : κ) (depth : Nat)
    (chars : List (Nat × Char)) (hfits : depth + 1 + chars.length < wordLimit) :
    scanPartner classAt bracket other kind (depth + 1) chars =
      .ok (Highlighter.scanPartner classAt bracket other kind depth chars) := by
  -- in words the first bracket is counted as well, so the depth is one more all along
  induction chars generalizing depth with
  | nil => rfl
  | cons char rest ih =>
      obtain ⟨o, c⟩ := char
      rw [List.length_cons] at hfits
      rw [scanPartner, Highlighter.scanPartner.eq_def]
      dsimp only
      split
      · exact ih depth (by omega)
      · split
        · rw [add_eq_ok (by omega), ok_bind]
          exact ih (depth + 1) (by omega)
        · rw [sub_eq_ok (by omega), ok_bind]
          cases depth with
          | zero => rfl
          | succ depth => exact ih depth (by omega)

/-- The chars ahead of a bracket are numbered without overflow. -/
theorem charsAhead_eq (hsmall : doc.length < textLimit) {e : Extent} (hstart : e.start ≤ doc.length) :
    charsAhead doc e = .ok (charsOf doc e) := by
  have hfits : e.start + (doc.slice e).size < wordLimit := add_size_slice hsmall e.stop hstart
  have hall : ∀ x ∈ (doc.slice e).toList.zipIdx, (do return (← add e.start x.2, x.1)) =
      Except.ok (e.start + x.2, x.1) := by
    intro x hx
    have hlt := (List.getElem?_eq_some_iff.1 (List.mem_zipIdx_iff_getElem?.1 hx)).1
    rw [Array.length_toList] at hlt
    rw [add_eq_ok (by omega)]
    rfl
  rw [charsAhead, mapM_eq_ok hall]
  refine congrArg Except.ok (List.ext_getElem? ?_)
  intro i
  rw [charsOf, List.getElem?_map, List.getElem?_map, List.getElem?_zipIdx, List.getElem?_zipIdx,
    Option.map_map, Option.map_map]
  refine congrArg (Option.map · _) (funext ?_)
  intro c
  show (e.start + (0 + i), c) = (e.start + i, c)
  rw [Nat.zero_add]

/-- The chars behind a bracket are numbered without going below zero. -/
theorem charsBehind_eq {e : Extent} (hstop : e.stop ≤ doc.length) :
    charsBehind doc e = .ok (charsOf doc e).reverse := by
  have hsize := doc.size_slice e
  have hall : ∀ x ∈ (doc.slice e).toList.reverse.zipIdx,
      (do return (← sub (← sub e.stop 1) x.2, x.1)) = Except.ok (e.stop - 1 - x.2, x.1) := by
    intro x hx
    have hlt := (List.getElem?_eq_some_iff.1 (List.mem_zipIdx_iff_getElem?.1 hx)).1
    rw [List.length_reverse, Array.length_toList] at hlt
    rw [sub_eq_ok (by omega), ok_bind, sub_eq_ok (by omega)]
    rfl
  rw [charsBehind, mapM_eq_ok hall]
  refine congrArg Except.ok (List.ext_getElem? ?_)
  intro i
  rw [List.getElem?_map, List.getElem?_zipIdx, Option.map_map]
  by_cases hi : i < (doc.slice e).size
  · have hlen : (charsOf doc e).length = (doc.slice e).size := by rw [length_charsOf, hsize]
    rw [List.getElem?_reverse hi, List.getElem?_reverse (hlen ▸ hi), hlen, Array.length_toList,
      Array.getElem?_toList, doc.getElem?_slice, getElem?_charsOf, doc.charAt?_eq]
    -- as the extent ends in the text, its last char is the one before its end
    have hplace : e.start + ((doc.slice e).size - 1 - i) = e.stop - 1 - (0 + i) := by omega
    rw [if_pos (by omega), if_pos (by omega), hplace]
    rfl
  · rw [List.getElem?_eq_none, List.getElem?_eq_none]
    · rfl
    · rw [List.length_reverse, length_charsOf, ← hsize]
      exact Nat.not_lt.1 hi
    · rw [List.length_reverse, Array.length_toList]
      exact Nat.not_lt.1 hi

/-- A sum that is brought down to the text need not be capped. -/
theorem min_addCapped {n : Nat} (hsmall : n < textLimit) (a b : Nat) :
    min n (addCapped a b) = min n (a + b) := by
  have hword : n < wordLimit := lt_wordLimit (by omega)
  rw [addCapped]
  omega

/-- Without a limit the reach is the greatest word, and so past the end of the text. -/
theorem min_reach {n : Nat} (hword : n < wordLimit) (pos : Nat) (limit : Option Nat) :
    min n (pos + limit.getD (wordLimit - 1)) = min n (pos + limit.getD n) := by
  cases limit with
  | none =>
      simp only [Option.getD_none]
      omega
  | some l => rfl

/-- Without a limit the reach is the greatest word, and so past the start of the text. -/
theorem sub_reach {n : Nat} (hword : n < wordLimit) (limit : Option Nat) :
    n - limit.getD (wordLimit - 1) = n - limit.getD n := by
  cases limit with
  | none =>
      simp only [Option.getD_none]
      omega
  | some l => rfl

/-- **Bracket matching** never overflows. -/
theorem matchingBracket?_eq (hsmall : doc.length < textLimit) (pos : Nat) (limit : Option Nat)
    (classAt : Nat → κ) :
    matchingBracket? doc pos limit classAt =
      .ok (Highlighter.matchingBracket? doc pos limit classAt) := by
  have hword : doc.length < wordLimit := lt_wordLimit (by omega)
  have hscan : ∀ (bracket other : Char) (kind : κ) (chars : List (Nat × Char)),
      chars.length ≤ doc.length → scanPartner classAt bracket other kind 1 chars =
        .ok (Highlighter.scanPartner classAt bracket other kind 0 chars) := by
    intro bracket other kind chars hlen
    exact scanPartner_eq classAt bracket other kind 0 chars (lt_wordLimit (by omega))
  have hlength : ∀ e : Extent, (charsOf doc e).length ≤ doc.length := by
    intro e
    rw [length_charsOf]
    omega
  cases pos with
  | zero => rfl
  | succ origin =>
      rw [matchingBracket?, Highlighter.matchingBracket?]
      cases hbracket : doc.charAt? origin with
      | none => rfl
      | some bracket =>
          have horigin : origin < doc.length := doc.lt_length_of_charAt? hbracket
          dsimp only
          rw [Option.bind_eq_bind, Option.bind_some]
          cases partner? bracket with
          | none => rfl
          | some partner =>
              obtain ⟨other, forward⟩ := partner
              dsimp only
              cases forward with
              | true =>
                  rw [if_pos rfl, charsAhead_eq hsmall (Nat.succ_le_of_lt horigin), ok_bind,
                    min_addCapped hsmall, min_reach hword]
                  exact hscan _ _ _ _ (hlength _)
              | false =>
                  rw [if_neg Bool.false_ne_true, charsBehind_eq (Nat.le_of_lt horigin), ok_bind,
                    sub_reach (Nat.lt_trans horigin hword)]
                  exact hscan _ _ _ _ (by rw [List.length_reverse]; exact hlength _)

/-- A search for a bracket overflows in its analysis. -/
theorem computes_matchingBracket (hsmall : doc.length < textLimit) (s : Session) (pos : Nat)
    (limit : Option Nat) :
    Computes (matchingBracket doc s pos limit) (s.matchingBracket doc pos limit)
      ((s.enabled && s.lexicon.hasRegions) = true ∧
        s.Overruns doc (min (pos + limit.getD doc.length) doc.length) (Session.roundLimit doc)) := by
  rw [matchingBracket.eq_def, Session.matchingBracket]
  by_cases hon : (s.enabled && s.lexicon.hasRegions) = true
  · rw [if_pos hon, if_pos hon, and_iff_right hon]
    have hfrom : ∀ upto, Computes
        (do
          let s ← ensureAnalyzed doc s upto
          return (s, ← matchingBracket? doc pos limit (tagAt? s.analysis.table.entries)))
        (s.ensureAnalyzed doc upto, Highlighter.matchingBracket? doc pos limit
          (tagAt? (s.ensureAnalyzed doc upto).analysis.table.entries))
        (s.Overruns doc upto (Session.roundLimit doc)) := by
      intro upto
      refine Computes.bind_ok (computes_ensureAnalyzed hsmall s upto) ?_
      intro _
      rw [matchingBracket?_eq hsmall]
      rfl
    cases limit with
    | none =>
        rw [Option.getD_none, Nat.min_eq_right (Nat.le_add_left doc.length pos)]
        exact hfrom doc.length
    | some l =>
        have hcapped : min (addCapped pos l) doc.length = min (pos + l) doc.length := by
          rw [Nat.min_comm, min_addCapped hsmall, Nat.min_comm]
        dsimp only
        rw [hcapped]
        exact hfrom _
  · rw [if_neg hon, if_neg hon, matchingBracket?_eq hsmall]
    exact .of_ok rfl fun hbad => hon hbad.1

end Brackets

/-! ## Edits -/

section Edits

variable (hsmall : doc.length < textLimit)

include hsmall

/-- Repair never overflows when the edit fits. -/
theorem repair_eq {e : Edit} (hold : e.oldStop < wordLimit) (hnew : e.newStop ≤ doc.length)
    (s : Session) : repair doc s e = .ok (s.repair doc e) := by
  rw [repair, Session.repair]
  split
  · rw [update?_eq hsmall hold hnew, ok_bind]
    cases s.analysis.update? s.lexicon doc e s.settings.stepBudget with
    | none =>
        dsimp only
        rw [invalidate_eq hold]
        rfl
    | some a => rfl
  · rfl

/-- To follow an edit never overflows when the edit fits. -/
theorem applyEdit_eq {e : Edit} (hold : e.oldStop < wordLimit) (hnew : e.newStop ≤ doc.length)
    (s : Session) : applyEdit doc s e = .ok (s.applyEdit doc e) := by
  rw [applyEdit, Session.applyEdit]
  split
  · rw [repair_eq hsmall hold hnew, ok_bind, add_newStop hsmall hnew, ok_bind,
      snapToLines_eq hsmall]
    rfl
  · rfl

/-- **An insertion** overflows by the ranges that are asked for. -/
theorem computes_onInsert {n pos count : Nat} (hupto : s.staleness.dirty.Upto n)
    (hlaid : Laid 0 s.paint.spans n) (hpos : pos ≤ n) (hlength : n + count = doc.length) :
    Computes (onInsert doc s pos count) (s.onInsert doc pos count)
      (count ≠ 0 ∧ ∃ e ∈ s.staleness.requested.extents, Outgrows e pos count) := by
  rw [onInsert, Session.onInsert]
  by_cases hnone : count = 0
  · rw [if_pos hnone, if_pos hnone]
    exact .of_ok rfl fun hbad => hbad.1 hnone
  · rw [if_neg hnone, if_neg hnone, and_iff_right hnone]
    have hfits : n + count < textLimit := hlength ▸ hsmall
    have hold : (Edit.insertion pos count).oldStop < wordLimit := by
      rw [Edit.insertion_oldStop]
      exact lt_wordLimit (by omega)
    have hnew : (Edit.insertion pos count).newStop ≤ doc.length := by
      rw [Edit.insertion_newStop]
      omega
    refine Computes.bind_ok (computes_staleAfterInsert hupto hfits) ?_
    intro _
    rw [paintAfterInsert_eq hlaid hfits, ok_bind, applyEdit_eq hsmall hold hnew]

/-- **A deletion** never overflows. -/
theorem onDelete_eq {start stop : Nat} (hstart : start ≤ doc.length) (hstop : stop < wordLimit)
    (s : Session) : onDelete doc s start stop = .ok (s.onDelete doc start stop) := by
  rw [onDelete, Session.onDelete]
  by_cases hnone : stop ≤ start
  · rw [if_pos hnone, if_pos hnone]
    rfl
  · rw [if_neg hnone, if_neg hnone]
    have hold : (Edit.deletion start stop).oldStop < wordLimit := by
      rwa [Edit.deletion_oldStop (Nat.le_of_not_le hnone)]
    have hnew : (Edit.deletion start stop).newStop ≤ doc.length := by
      rwa [Edit.deletion_newStop]
    rw [staleAfterDelete_eq, ok_bind, paintAfterDelete_eq, ok_bind,
      sub_eq_ok (Nat.le_of_not_le hnone), ok_bind]
    exact applyEdit_eq hsmall hold hnew _

end Edits

end Word

end Highlighter
