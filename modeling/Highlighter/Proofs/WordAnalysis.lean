import Highlighter.Proofs.TableShape
import Highlighter.Proofs.Words

/-! # Analysis in words — only the end of a batch can be no word

    What a scan finds lies in its window, and a window lies in the text; so all sums of a scan
    fit, and its differences are between a position and one before it.  The end of a batch is
    the one sum that is made before it is brought down to the text: it does not fit if the
    batch is too large for where it starts (`Overshoots`). -/

namespace Highlighter

/-- The next batch would end where no word is. -/
def Analysis.Overshoots (lex : Lexicon) (a : Analysis) (doc : Document) (limit : Nat) : Prop :=
  lex.hasRegions = true ∧
    ∃ f, a.table.frontier = some f ∧ wordLimit ≤ min f.offset doc.length + max limit 1

namespace Word

variable {lex : Lexicon} {doc : Document}

/-- What a step finds lies in the text, in this order. -/
theorem step_inside {text : Array Char} {p : Nat} {state : ScanState} {s : Step}
    (h : lex.step text p state = some s) :
    s.textStart ≤ s.offset ∧ s.offset ≤ s.next ∧ s.next ≤ text.size := by
  have hnext := (Lexicon.step_bounds h).2.1
  cases state with
  | outside =>
      obtain ⟨m, hm, rfl⟩ := Option.map_eq_some_iff.1 h
      have hbounds := Lexicon.findStart_bounds hm
      exact ⟨Nat.le_refl _, Nat.le_of_lt hbounds.2.1, hnext⟩
  | inside tag =>
      obtain ⟨m, hm, rfl⟩ := Option.map_eq_some_iff.1 h
      obtain ⟨d, -, hd⟩ := Option.bind_eq_some_iff.1 hm
      have hbounds := nextUnescaped_bounds hd
      exact ⟨hbounds.2.1, Nat.le_refl _, hnext⟩

section Scan

variable {window : Array Char} {base pos : Nat} {bound : Option Nat} {state : ScanState}
  {saved : Option SavedTail}

theorem scanBatch_of_none (h : lex.step window pos state = none) :
    scanBatch lex window base bound pos state saved = .ok ([], .reached pos state saved) := by
  rw [scanBatch]
  split
  next => rfl
  next s hs =>
    rw [h] at hs
    exact absurd hs.symm (Option.some_ne_none s)

/-- A step inside the bound is taken, and then the scan goes on. -/
theorem scanBatch_of_some {s : Step} (h : lex.step window pos state = some s) :
    scanBatch lex window base bound pos state saved =
      if bound.any fun b => b ≤ s.textStart then .ok ([], .reached pos state saved)
      else do
        let offset ← add base s.offset
        let b := Boundary.into offset s.state
        let saved := saved.bind (·.discardBefore b.offset)
        match saved.bind (·.behind? b) with
        | some behind => return ([b], .spliced b.offset behind (saved.bind (·.frontier)))
        | none =>
          let (found, stop) ← scanBatch lex window base bound s.next s.state saved
          return (b :: found, stop) := by
  rw [scanBatch]
  split
  next hs =>
    rw [h] at hs
    exact absurd hs (Option.some_ne_none s)
  next s' hs =>
    obtain rfl := Option.some.inj (h.symm.trans hs)
    rfl

/-- The scan of a batch never overflows in a window that fits. -/
theorem scanBatch_eq (hfits : base + window.size < wordLimit) (bound : Option Nat) (pos : Nat)
    (state : ScanState) (saved : Option SavedTail) :
    scanBatch lex window base bound pos state saved =
      .ok (Analysis.scanBatch lex window base bound pos state saved) := by
  fun_induction Analysis.scanBatch lex window base bound pos state saved with
  | case1 pos state saved hs => exact scanBatch_of_none hs
  | case2 pos state saved s hs hbound =>
      rw [scanBatch_of_some hs, if_pos hbound]
  | case3 pos state saved s hs hbound b saved' behind hbehind =>
      obtain ⟨-, hoffset, hnext⟩ := step_inside hs
      rw [scanBatch_of_some hs, if_neg hbound, add_eq_ok (by omega), ok_bind]
      simp only
      rw [hbehind]
      rfl
  | case4 pos state saved s hs hbound b saved' hbehind found stop heq ih =>
      obtain ⟨-, hoffset, hnext⟩ := step_inside hs
      rw [scanBatch_of_some hs, if_neg hbound, add_eq_ok (by omega), ok_bind]
      simp only
      rw [hbehind, ih, heq]
      rfl

end Scan

/-- The end of a batch overflows when its start and its limit add up to no word. -/
theorem computes_batchStop (hsmall : doc.length < textLimit) (start limit : Nat) :
    Computes (batchStop doc start limit) (Analysis.batchStop doc start limit)
      (wordLimit ≤ start + max limit 1) :=
  Computes.bind_ok (computes_add start (max limit 1)) fun _ => snapForward_eq hsmall _

/-- A slice ends inside words. -/
theorem add_size_slice (hsmall : doc.length < textLimit) {base : Nat} (stop : Nat)
    (hbase : base ≤ doc.length) : base + (doc.slice ⟨base, stop⟩).size < wordLimit := by
  rw [Document.size_slice]
  exact lt_wordLimit (by omega)

/-- Where a batch starts lies in its window, and the window in the text. -/
theorem window_inside {start stop : Nat} (hstart : start ≤ stop) (hstop : stop ≤ doc.length) :
    start - doc.lineStart start ≤ (doc.window start stop).size ∧
      doc.lineStart start + (doc.window start stop).size ≤ doc.length := by
  have hbase := doc.lineStart_le start
  have hlook := doc.le_lookahead hstop
  have hend := (doc.isLineBreak_lookahead stop).1
  rw [doc.size_window]
  omega

/-- **A batch** overflows only by where it would end. -/
theorem computes_build (hsmall : doc.length < textLimit) (a : Analysis) (limit : Nat) :
    Computes (build lex a doc limit) (a.build lex doc limit) (a.Overshoots lex doc limit) := by
  rw [build, Analysis.build, Analysis.Overshoots]
  cases hfrontier : a.table.frontier with
  | none =>
      refine .of_ok rfl ?_
      rintro ⟨-, f, hf, -⟩
      exact absurd hf.symm (Option.some_ne_none f)
  | some f =>
      have hover : (∃ f', some f = some f' ∧ wordLimit ≤ min f'.offset doc.length + max limit 1) ↔
          wordLimit ≤ min f.offset doc.length + max limit 1 := by
        simp only [Option.some.injEq, exists_eq_left']
      rw [hover]
      simp only
      have hstart : min f.offset doc.length ≤ doc.length := Nat.min_le_right _ _
      generalize min f.offset doc.length = start at hstart ⊢
      by_cases hregions : lex.hasRegions = true
      · have hnot : ¬(!lex.hasRegions) = true := by simp [hregions]
        rw [if_neg hnot, if_neg hnot, and_iff_right hregions]
        refine Computes.bind_ok (computes_batchStop hsmall start limit) ?_
        intro _
        obtain ⟨hbreak, hstop, -⟩ := batchStop_spec doc limit hstart
        generalize Analysis.batchStop doc start limit = stop at hbreak hstop ⊢
        have hbase : doc.lineStart start ≤ start :=
          Nat.le_trans (doc.lineStart_le start) (Nat.min_le_left _ _)
        -- from here on all sums stay in the window
        obtain ⟨hin, hwindow⟩ := window_inside hstop hbreak.1
        have hfits := add_size_slice hsmall (Analysis.lookahead doc stop)
          (Nat.le_trans hbase hstart)
        rw [lookahead_eq hsmall, ok_bind, sub_eq_ok (Nat.le_trans hbase hstop), ok_bind,
          sub_eq_ok hbase, ok_bind, scanBatch_eq hfits, ok_bind]
        have hfinds := Analysis.scanBatch_finds lex (doc.window start stop) (doc.lineStart start)
          (doc.windowBound start stop) (start - doc.lineStart start) f.state a.saved hin
        rw [Document.window, Document.windowBound] at hfinds
        generalize Analysis.scanBatch lex _ _ _ _ f.state a.saved = result at hfinds ⊢
        cases hfinds with
        | spliced _ _ _ => rfl
        | @reached bs pos' state' saved' _ hpos' _ =>
            dsimp only
            rw [add_eq_ok (by omega), ok_bind, sub_eq_ok (by omega), ok_bind]
            exact (apply_ite Except.ok _ _ _).symm
      · have hnot : (!lex.hasRegions) = true := by simp [hregions]
        rw [if_pos hnot, if_pos hnot, sub_eq_ok hstart]
        exact .of_ok rfl fun hover => hregions hover.1

/-- Where a scan meets a boundary set aside lies in its window. -/
theorem offset_of_spliced {window : Array Char} {base pos offset : Nat} {bound : Option Nat}
    {state : ScanState} {saved : Option SavedTail} {behind : List Boundary}
    {frontier : Option Frontier} (h : (Analysis.scanBatch lex window base bound pos state saved).2 =
      .spliced offset behind frontier) : offset ≤ base + window.size := by
  fun_induction Analysis.scanBatch lex window base bound pos state saved with
  | case1 => cases h
  | case2 => cases h
  | case3 pos state saved s hs hbound b saved' behind' hbehind =>
      obtain ⟨-, hoffset, hnext⟩ := step_inside hs
      have hb : b.offset = base + s.offset := by
        show (Boundary.into (base + s.offset) s.state).offset = _
        cases s.state <;> rfl
      have hmet : b.offset = offset := (BatchEnd.spliced.inj h).1
      omega
  | case4 pos state saved s hs hbound b saved' hbehind found stop heq ih =>
      rw [heq] at ih
      exact ih h

/-- **A batch** consumes no more chars than the text has. -/
theorem processed_build_le {a a' : Analysis} {limit : Nat} {report : BuildReport}
    (h : a.build lex doc limit = some (a', report)) : report.processed ≤ doc.length := by
  cases hf : a.table.frontier with
  | none =>
      rw [Analysis.build_of_none hf] at h
      exact absurd h.symm (Option.some_ne_none _)
  | some f =>
      have hstart : min f.offset doc.length ≤ doc.length := Nat.min_le_right _ _
      rcases a.build_cases lex doc limit hf rfl with
        ⟨-, hbuild⟩ | ⟨stop, hbreak, hstop, -, hbuild⟩
      · obtain ⟨-, rfl⟩ := Prod.mk.inj (Option.some.inj (hbuild.symm.trans h))
        exact Nat.sub_le _ _
      · have hreport := congrArg Prod.snd (Option.some.inj (hbuild.symm.trans h))
        generalize min f.offset doc.length = start at hstart hstop hreport
        obtain ⟨hin, hwindow⟩ := window_inside hstop hbreak.1
        have hfinds := Analysis.scanBatch_finds lex (doc.window start stop) (doc.lineStart start)
          (doc.windowBound start stop) (start - doc.lineStart start) f.state a.saved hin
        obtain rfl := hreport
        obtain ⟨⟨found, ending⟩, hscan⟩ : ∃ result, Analysis.scanBatch lex (doc.window start stop)
            (doc.lineStart start) (doc.windowBound start stop) (start - doc.lineStart start) f.state
            a.saved = result := ⟨_, rfl⟩
        cases ending with
        | spliced offset behind frontier =>
            -- the batch ends at a boundary of its window
            have hoffset := offset_of_spliced (congrArg Prod.snd hscan)
            rw [hscan]
            show offset - start ≤ doc.length
            omega
        | reached pos' state' saved' =>
            rw [hscan] at hfinds ⊢
            cases hfinds with
            | reached _ hpos' _ =>
                -- it ends where it was to end, or where a match that straddles that place does
                have hbound := hbreak.1
                show max (doc.lineStart start + pos') stop - start ≤ doc.length
                omega

/-! ## Edits -/

/-- The comparison with what is expected never overflows in a window that fits. -/
theorem confirms_eq {window : Array Char} {base : Nat} (hfits : base + window.size < wordLimit)
    (bound : Option Nat) (e : Edit) (budget pos : Nat) (state : ScanState)
    (expected : List Boundary) :
    confirms lex window base bound e budget pos state expected =
      .ok (Analysis.confirms lex window base bound e budget pos state expected) := by
  induction budget generalizing pos state expected with
  | zero => rfl
  | succ budget ih =>
      rw [confirms, Analysis.confirms]
      cases hs : lex.step window pos state with
      | none => rfl
      | some s =>
          obtain ⟨hstart, hoffset, hnext⟩ := step_inside hs
          dsimp only
          rw [add_eq_ok (by omega), ok_bind, add_eq_ok (by omega), ok_bind,
            add_eq_ok (by omega), ok_bind]
          split
          · rfl
          · split
            · rfl
            · cases expected with
              | nil => rfl
              | cons b rest =>
                  dsimp only
                  split
                  next hsame => rw [ih, hsame, Bool.true_and]
                  next hother => rw [Bool.eq_false_iff.2 hother, Bool.false_and]; rfl

/-- The end of what an edit replaces is found without overflow. -/
theorem add_oldStop {e : Edit} (hold : e.oldStop < wordLimit) :
    add e.pos (-e.delta).toNat = .ok e.oldStop := add_eq_ok hold

/-- The end of what an edit puts in is found without overflow. -/
theorem add_newStop {e : Edit} (hsmall : doc.length < textLimit) (hnew : e.newStop ≤ doc.length) :
    add e.pos e.delta.toNat = .ok e.newStop :=
  add_eq_ok (lt_wordLimit (show e.newStop ≤ 2 * textLimit by omega))

/-- **An edit of the text** is absorbed in words as it is in numbers. -/
theorem update?_eq (hsmall : doc.length < textLimit) {e : Edit} (hold : e.oldStop < wordLimit)
    (hnew : e.newStop ≤ doc.length) (a : Analysis) (budget : Nat) :
    update? lex a doc e budget = .ok (a.update? lex doc e budget) := by
  rw [update?, Analysis.update?, add_oldStop hold, ok_bind, add_newStop hsmall hnew, ok_bind,
    snapForward_eq hsmall, ok_bind]
  dsimp only
  split
  · rfl
  · -- the scan starts at a line start no later than the edit, and ends past it
    have hpos : e.pos ≤ e.newStop := Nat.le_add_right _ _
    have hcut := Analysis.lastOffset_keptBefore_le a.table.entries (doc.lineStart e.pos)
    have hline := doc.lineStart_le e.pos
    have hstop := doc.le_snapForward (doc.lineEnd_le e.newStop)
    have hend := doc.le_lineEnd hnew
    generalize lastOffset _ = restart at hcut ⊢
    have hbase := doc.lineStart_le restart
    generalize doc.snapForward _ = stop at hstop ⊢
    generalize List.drop _ a.table.entries = rest
    have hfits := add_size_slice hsmall (Analysis.lookahead doc stop)
      (show doc.lineStart restart ≤ doc.length by omega)
    cases Analysis.expected? e (if stop < doc.length then some stop else none) rest with
    | none => rfl
    | some expected =>
        dsimp only
        rw [lookahead_eq hsmall, ok_bind, sub_eq_ok (by omega), ok_bind, sub_eq_ok (by omega),
          ok_bind, confirms_eq hfits, ok_bind]
        have hbound : ((if stop < doc.length then some stop else none).map
            fun _ => stop - doc.lineStart restart) =
            (if stop < doc.length then some stop else none).map (· - doc.lineStart restart) := by
          split <;> rfl
        rw [hbound]
        exact (apply_ite Except.ok _ _ _).symm

/-- **An edit of the text** cuts the table back in words as it does in numbers. -/
theorem invalidate_eq {e : Edit} (hold : e.oldStop < wordLimit) (a : Analysis) :
    invalidate a doc e = .ok (a.invalidate doc e) := by
  rw [invalidate, show add e.pos (-e.delta).toNat = _ from add_eq_ok hold]
  rfl

end Word

end Highlighter
