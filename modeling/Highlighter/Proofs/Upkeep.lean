import Highlighter.Proofs.Absorption
import Highlighter.Proofs.Laziness

/-! # Upkeep — paint and boundaries through an edit

    An edit moves the paint along with the text and makes the edited lines stale.  What is
    left is the text before those lines, where nothing changes, and the text behind them,
    where all has moved (`Followed`).  The table is cut back or moves along as well, so the
    paint stays in step: `InStep.invalidate` for an edit that changes boundaries, and
    `InStep.absorb` for one that does not. -/

namespace Highlighter

variable {lex : Lexicon} {text : Array Char} {doc : Document} {e : Edit} {p p' : Paint}
  {dirty dirty' : ExtentSet}

/-! ## What an edit does to paint -/

/-- Paint and stale offsets have followed an edit, and the edited lines are stale. -/
structure Followed (doc : Document) (e : Edit) (p p' : Paint) (dirty dirty' : ExtentSet) :
    Prop where
  paint  : p.Carried p' e
  before : ∀ x ∈ dirty, x < e.pos → x ∈ dirty'
  behind : ∀ x ∈ dirty, e.oldStop ≤ x → shift x e.delta ∈ dirty'
  lines  : ∀ x, doc.lineStart e.pos ≤ x → x ≤ doc.lineEnd e.newStop → x < doc.chars.size → x ∈ dirty'
  laid   : Laid 0 p'.spans doc.chars.size
  upto   : dirty'.Upto doc.chars.size

theorem le_of_mem_clipped {l : List Span} {a b : Nat} {s : Span} (h : s ∈ clipped l a b) :
    a ≤ s.start ∧ a ≤ s.stop := by
  obtain ⟨hmem, hfull⟩ := List.mem_filter.1 h
  obtain ⟨s', -, rfl⟩ := List.mem_map.1 hmem
  have hlt : (s'.clip ⟨a, b⟩).start < (s'.clip ⟨a, b⟩).stop := by
    simpa [Span.isEmpty] using hfull
  have hle : a ≤ (s'.clip ⟨a, b⟩).start := Nat.le_max_right _ _
  exact ⟨hle, Nat.le_trans hle (Nat.le_of_lt hlt)⟩

/-- What is painted behind an edit moves along. -/
theorem Painted.carried {spans : List Span} {lo lo' hi : Nat} {delta : Int}
    (h : Painted p dirty spans lo hi delta) (hfollowed : Followed doc e p p' dirty dirty')
    (hlo : lo ≤ lo') (hnonneg : 0 ≤ (lo' : Int) + delta) (hfar : e.oldStop ≤ shift lo' delta) :
    Painted p' dirty' spans lo' hi (delta + e.delta) := by
  intro a b ha hab hhi hclean
  have hmoves : ∀ {i : Nat}, lo' ≤ i →
      shift (shift i delta) e.delta = shift i (delta + e.delta) ∧ e.oldStop ≤ shift i delta :=
    fun hi => ⟨shift_shift (by omega), Nat.le_trans hfar (shift_mono hi)⟩
  obtain ⟨hmove, hfar'⟩ := hmoves ha
  obtain ⟨hmove', -⟩ := hmoves (Nat.le_trans ha hab)
  obtain ⟨hmove'', hfar''⟩ := hmoves (Nat.le_trans ha hhi)
  rw [← hmove, ← hmove'] at hclean
  rw [← hmove, ← hmove', ← hmove'']
  have hold : ∀ x, shift a delta ≤ x → x < shift b delta → x ∉ dirty := by
    intro x hx hlt hin
    have hge : e.oldStop ≤ x := Nat.le_trans hfar' hx
    have hcast := shift_of_le hge
    have hlt' : shift x e.delta < shift (shift b delta) e.delta :=
      (shift_lt_shift (by omega)).2 hlt
    exact hclean _ (shift_mono hx) hlt' (hfollowed.behind x hin hge)
  rw [hfollowed.paint.behind _ _ hfar', hfollowed.paint.behind _ _ hfar'',
    h a b (Nat.le_trans hlo ha) hab hhi hold, List.map_append, List.map_map]
  congr 1
  refine List.map_congr_left ?_
  intro s hs
  obtain ⟨hstart, hstop⟩ := le_of_mem_clipped hs
  show Span.mk (shift (shift s.start delta) e.delta) (shift (shift s.stop delta) e.delta) s.style = _
  rw [shift_shift (by omega), shift_shift (by omega)]
  rfl

namespace Followed

variable {spans spans' : List Span} {R R' : Nat}

/-- Before an edit the paint is what it was. -/
theorem window_before (hfollowed : Followed doc e p p' dirty dirty')
    (h : Painted p dirty spans 0 R 0) {x y : Nat} (hxy : x ≤ y) (hx : x ≤ R) (hy : y ≤ e.pos)
    (hclean : ∀ i, x ≤ i → i < y → i ∉ dirty') :
    clipped p'.spans x y = clipped spans x y ++ clipped p.spans R y := by
  rw [hfollowed.paint.before x y hy]
  refine painted_zero.1 h x y (Nat.zero_le x) hxy hx ?_
  intro i hi hlt hin
  exact hclean i hi hlt (hfollowed.before i hin (by omega))

/-- **What is painted after an edit** is a matter of the windows before the edited lines and of
    those behind them: every other one holds something stale. -/
theorem painted (hfollowed : Followed doc e p p' dirty dirty') (hnew : e.pos ≤ doc.chars.size)
    (hlaid : Laid 0 spans' R') (hR' : R' ≤ doc.chars.size)
    (hbefore : ∀ x y, x < R' → x ≤ y → y ≤ doc.lineStart e.pos →
      (∀ i, x ≤ i → i < y → i ∉ dirty') →
        clipped p'.spans x y = clipped spans' x y ++ clipped p'.spans R' y)
    (hbehind : ∀ x y, doc.lineEnd e.newStop < x → x < R' → x ≤ y →
      (∀ i, x ≤ i → i < y → i ∉ dirty') →
        clipped p'.spans x y = clipped spans' x y ++ clipped p'.spans R' y) :
    Painted p' dirty' spans' 0 R' 0 := by
  refine painted_zero.2 ?_
  intro x y _ hxy hx hclean
  rcases Nat.eq_or_lt_of_le hx with rfl | hlt
  · rw [hlaid.clipped_apart (.inr (Nat.le_refl x)), List.nil_append]
  · -- nothing shows past the end of the text
    have hshort : ∀ l : List Span, Laid 0 l doc.chars.size → ∀ a,
        clipped l a y = clipped l a (min y doc.chars.size) := fun l hl a => hl.clipped_min a y
    rw [hshort _ hfollowed.laid x, hshort _ hfollowed.laid R',
      hshort _ (hlaid.mono (Nat.le_refl 0) hR') x]
    have hclean' : ∀ i, x ≤ i → i < min y doc.chars.size → i ∉ dirty' :=
      fun i hi hlt => hclean i hi (by omega)
    by_cases hfront : min y doc.chars.size ≤ doc.lineStart e.pos
    · exact hbefore x _ hlt (by omega) hfront hclean'
    · by_cases hback : doc.lineEnd e.newStop < x
      · exact hbehind x _ hback hlt (by omega) hclean'
      · rcases Nat.eq_or_lt_of_le (show x ≤ min y doc.chars.size by omega) with heq | hlt'
        · have hnone : clipped p'.spans R' (min y doc.chars.size) = [] := clipped_of_le (by omega)
          rw [clipped_of_le (by omega), clipped_of_le (by omega), hnone]
          rfl
        · -- the window holds a place of the edited lines
          have hstart := doc.lineStart_le e.pos
          have hnew' : e.pos ≤ e.newStop := Nat.le_add_right _ _
          have hend := (doc.lineEnd_spec e.newStop).1
          exact absurd (hfollowed.lines (max x (doc.lineStart e.pos)) (by omega) (by omega) (by omega))
            (hclean' _ (by omega) (by omega))

end Followed

/-! ## What an edit leaves alone of a drawing -/

namespace Lexicon

variable {text' : Array Char} {entries : List Boundary} {q : Nat}

/-- Texts that agree up to a place are drawn alike up to there. -/
theorem drawing_congr (htokens : lex.TokensLocal) (hascends : Ascends 0 entries)
    (hq : q ≤ text.size) (hq' : q ≤ text'.size) (hagree : ∀ i < q, text'[i]? = text[i]?) :
    lex.drawing text' entries 0 q = lex.drawing text entries 0 q := by
  have hsame : (beyond entries 0).map (·.shifted 0) = beyond entries 0 := by simp
  have hmoved : lex.drawn text' (shift q 0) ((beyond entries 0).map (·.shifted 0))
      (tagThrough none entries 0) (shift 0 0) = _ :=
    drawn_shifted htokens (ascends_beyond hascends 0) (Nat.zero_le q) hq (by omega)
      (by rwa [shift_zero]) rfl fun i _ hi => by rw [shift_zero, hagree i hi]
  rwa [hsame, map_shifted_zero, shift_zero, shift_zero] at hmoved

end Lexicon

/-! ## A table that is cut back -/

/-- Up to where the table has been cut back, nothing has changed. -/
theorem Followed.painted_cut (hfollowed : Followed doc e p p' dirty dirty')
    (hedit : Edited text doc.chars e) (htokens : lex.TokensLocal)
    {entries more : List Boundary} {R r : Nat} (hascends : Ascends 0 (entries ++ more))
    (hascends' : Ascends 0 entries) (hR : R ≤ text.size) (hr : r ≤ R)
    (hcut : r ≤ doc.lineStart e.pos) (hmore : ∀ b ∈ more, r ≤ b.offset)
    (hseam : r = 0 ∨ r = R ∨ ∃ b ∈ entries, b.offset = r)
    (h : Painted p dirty (lex.drawing text (entries ++ more) 0 R) 0 R 0) :
    Painted p' dirty' (lex.drawing doc.chars entries 0 r) 0 r 0 := by
  have hpos : e.pos ≤ doc.chars.size := hedit.pos_le.2
  have hstart := doc.lineStart_le e.pos
  have hnew : e.pos ≤ e.newStop := Nat.le_add_right _ _
  have hend := (doc.lineEnd_spec e.newStop).1
  have hsize : r ≤ doc.chars.size := by
    have hlen : doc.length = doc.chars.size := doc.length_eq
    omega
  have hlaid := Lexicon.laid_drawing lex hascends' (Nat.zero_le r) hsize
  refine hfollowed.painted hpos hlaid hsize (fun x y hx hxy hy hclean => ?_) fun x y hx hlt _ _ => ?_
  case refine_2 => omega
  have hclean' : ∀ i, r ≤ i → i < y → i ∉ dirty' := fun i hi hlt => hclean i (by omega) hlt
  have hbehind : clipped p'.spans r y =
      clipped (lex.drawing text (entries ++ more) 0 R) r y ++ clipped p.spans R y := by
    by_cases hle : r ≤ y
    · exact hfollowed.window_before h hle hr (by omega) hclean'
    · rw [clipped_of_le (by omega), clipped_of_le (by omega), clipped_of_le (by omega)]
      rfl
  -- what was drawn falls into two where the table ends now
  have hsplit := Lexicon.drawing_split htokens hascends (Nat.zero_le r) hr hR
    (hseam.resolve_left (by omega) |>.imp id fun ⟨b, hb, hat⟩ =>
      .inl ⟨b, List.mem_append_left more hb, hat⟩)
  have hlaid₀ : Laid 0 (lex.drawing text (entries ++ more) 0 r) r :=
    Lexicon.laid_drawing lex hascends (Nat.zero_le r) (Nat.le_trans hr hR)
  have hacross := clipped_across hlaid₀ (Lexicon.laid_drawing lex hascends hr hR)
    (Nat.le_of_lt hx) y
  have hfront : lex.drawing text (entries ++ more) 0 r = lex.drawing doc.chars entries 0 r := by
    rw [Lexicon.drawing_append hascends (Nat.zero_le r) (by omega) hmore]
    exact (Lexicon.drawing_congr htokens hascends' (by omega) hsize
      fun i hi => hedit.before i (by omega)).symm
  rw [hfollowed.window_before h hxy (by omega) (by omega) hclean, hbehind, hsplit, hacross, hfront,
    List.append_assoc]

/-- What is kept of a table lies before the rest, and ends with a boundary or is nothing. -/
theorem keptBefore_rest {entries : List Boundary} (h : Ascends 0 entries) (cut : Nat) :
    ∃ rest, entries = keptBefore entries cut ++ rest ∧
      Ascends 0 (keptBefore entries cut) ∧
      (∀ b ∈ rest, lastOffset (keptBefore entries cut) ≤ b.offset) ∧
      (lastOffset (keptBefore entries cut) = 0 ∨
        ∃ b ∈ keptBefore entries cut, b.offset = lastOffset (keptBefore entries cut)) := by
  obtain ⟨rest, hentries, -, hlast⟩ := keptBefore_spec entries cut
  refine ⟨rest, hentries, ?_⟩
  rcases hlast with hnil | ⟨init, b, hinit, -⟩
  · rw [hnil]
    exact ⟨trivial, fun b _ => Nat.zero_le _, .inl rfl⟩
  · have hoffset : lastOffset (init ++ [b]) = b.offset := by
      rw [lastOffset, List.getLast?_concat]
      rfl
    rw [hinit] at hentries ⊢
    rw [hentries, List.append_assoc] at h
    rw [hoffset]
    refine ⟨?_, fun b' hb' => h.of_append.2.le hb', .inr ⟨b, by simp, rfl⟩⟩
    rw [← List.append_assoc] at h
    exact h.of_append_left

/-! ## What is set aside -/

theorem SavedTail.of_mem_capture {entries : List Boundary} {frontier : Option Frontier}
    {oldStop : Nat} {delta : Int} {s : SavedTail} (hascends : Ascends 0 entries)
    (h : capture entries frontier oldStop delta = some s) {b : Boundary} (hb : b ∈ s.entries) :
    ∃ b₀ ∈ entries, oldStop < b₀.offset ∧ b.offset = shift b₀.offset delta := by
  obtain ⟨-, front, first, rest, rfl, hfirst, hentries, -⟩ := capture_eq_some h
  rw [hentries] at hb
  obtain ⟨b₀, hb₀, rfl⟩ := List.mem_map.1 hb
  refine ⟨b₀, List.mem_append_right front hb₀, ?_, rfl⟩
  rcases List.mem_cons.1 hb₀ with rfl | hb₀
  · exact hfirst
  · exact Nat.lt_of_lt_of_le hfirst (hascends.of_append.2.le hb₀)

namespace InStep

variable {a : Analysis}

/-- What stays saved through an edit is painted as before, moved along. -/
theorem adjust (h : InStep lex text a p dirty) (hedit : Edited text doc.chars e)
    (hfollowed : Followed doc e p p' dirty dirty') {s s' : SavedTail} (hs : a.saved = some s)
    (hadjust : s.adjust e.oldStop e.delta = some s') :
    (∃ og : Origin, og.Fits lex doc.chars s' ∧ og.Shows lex p' dirty') ∧
      ∀ b ∈ s'.entries, ∃ b₀ ∈ s.entries,
        e.oldStop < b₀.offset ∧ b.offset = shift b₀.offset e.delta := by
  obtain ⟨-, og, hfits, hshows⟩ := h.aside s hs
  obtain ⟨l₁, l₂, htail, hfirst, hfits'⟩ := hfits.adjust hedit hadjust
  have htable := Origin.table_of_append htail
  refine ⟨⟨_, hfits', ?_, ?_⟩,
    fun b hb => SavedTail.of_mem_capture hfits.ascends_entries hadjust hb⟩
  · exact (hfits.shows_rest hshows htail).landed
  · intro b rest hl₂
    have hl₂ : l₂ = b :: rest := hl₂
    subst hl₂
    have hnonneg := (hfits.looksAhead htail).nonneg
    have hpainted := (hfits.painted hshows htail).carried hfollowed (Nat.le_refl b.offset) hnonneg
      (Nat.le_of_lt (hfirst b rest rfl))
    rw [← htable] at hpainted
    exact hpainted

/-- What an edit sets aside is painted as in the text before it, moved along. -/
theorem capture (h : InStep lex text a p dirty) (hedit : Edited text doc.chars e)
    (hfollowed : Followed doc e p p' dirty dirty') {s' : SavedTail}
    (hcapture : SavedTail.capture a.table.entries a.table.frontier e.oldStop e.delta = some s') :
    (∃ og : Origin, og.Fits lex doc.chars s' ∧ og.Shows lex p' dirty') ∧
      ∀ b ∈ s'.entries, ∃ b₀ ∈ a.table.entries,
        e.oldStop < b₀.offset ∧ b.offset = shift b₀.offset e.delta := by
  obtain ⟨front, tail, hentries, hfirst, hfits⟩ := h.table.capture hedit hcapture
  have htable : Origin.table ⟨text, front, tail, a.table.frontier, e.delta⟩ = a.table := by
    show BoundaryTable.mk (front ++ tail) a.table.frontier = a.table
    rw [← hentries]
  refine ⟨⟨_, hfits, ?_, ?_⟩,
    fun b hb => SavedTail.of_mem_capture h.table.ascends hcapture hb⟩
  · rw [htable]
    exact h.landed
  · intro b rest htail
    have hfar : e.oldStop ≤ shift b.offset 0 := by
      rw [shift_zero]
      exact Nat.le_of_lt (hfirst b rest htail)
    have hpainted := h.painted.carried hfollowed (Nat.zero_le b.offset) (by omega) hfar
    rw [Int.zero_add] at hpainted
    rw [htable]
    exact hpainted

end InStep

/-! ## An edit that changes boundaries -/

namespace InStep

variable {a : Analysis}

theorem faithful (h : InStep lex text a p dirty) : a.Faithful lex text :=
  ⟨h.table, fun s hs => (h.aside s hs).2.elim fun og hog => ⟨og, hog.1⟩⟩

/-- Cutting the table back leaves it to go on from before the edited line. -/
theorem invalidate_frontier (h : InStep lex text a p dirty) (doc : Document) (e : Edit) :
    ∃ f, (a.invalidate doc e).table.frontier = some f ∧ f.offset ≤ doc.lineStart e.pos := by
  by_cases hpast : ∃ f, a.table.frontier = some f ∧ f.offset ≤ doc.lineStart e.pos
  · obtain ⟨f, hf, hle⟩ := hpast
    rw [Analysis.invalidate_table_of_past hf hle]
    exact ⟨f, hf, hle⟩
  · rw [Analysis.invalidate_table_of_not_past hpast]
    obtain ⟨-, -, hbefore, -⟩ := keptBefore_spec a.table.entries (doc.lineStart e.pos)
    obtain ⟨-, -, -, -, hseam⟩ := keptBefore_rest h.table.ascends (doc.lineStart e.pos)
    refine ⟨_, rfl, ?_⟩
    show lastOffset (keptBefore a.table.entries (doc.lineStart e.pos)) ≤ _
    rcases hseam with hzero | ⟨b, hb, hat⟩
    · rw [hzero]
      exact Nat.zero_le _
    · rw [← hat]
      exact Nat.le_of_lt (hbefore b hb)

/-- The frontier of the table that is cut back lands where it is kept, and else at a close. -/
theorem landed_invalidate (h : InStep lex text a p dirty) (hedit : Edited text doc.chars e) :
    (a.invalidate doc e).table.Landed doc.chars := by
  have hstart := doc.lineStart_le e.pos
  by_cases hpast : ∃ f, a.table.frontier = some f ∧ f.offset ≤ doc.lineStart e.pos
  · obtain ⟨f, hf, hle⟩ := hpast
    rw [Analysis.invalidate_table_of_past hf hle]
    intro g hg
    obtain rfl := Option.some.inj (hf.symm.trans hg)
    exact (h.landed f hf).imp (hedit.isLineStart_iff (by omega)).2 id
  · rw [Analysis.invalidate_table_of_not_past hpast]
    intro g hg
    obtain rfl := Option.some.inj hg
    obtain ⟨-, -, -, -, hzero | hseam⟩ := keptBefore_rest h.table.ascends (doc.lineStart e.pos)
    · left
      show IsLineStart doc.chars (lastOffset _)
      rw [hzero]
      exact isLineStart_zero
    · exact .inr hseam

/-- Up to where it is cut back the table is painted as before. -/
theorem painted_invalidate (h : InStep lex text a p dirty) (htokens : lex.TokensLocal)
    (hedit : Edited text doc.chars e) (hfollowed : Followed doc e p p' dirty dirty') :
    Painted p' dirty' ((a.invalidate doc e).table.drawing lex doc.chars) 0
      ((a.invalidate doc e).table.reach doc.chars.size) 0 := by
  have hascends := h.table.ascends
  have hreach := h.table.reach_le
  have hpainted := h.painted
  obtain ⟨f', hf', hle'⟩ := h.invalidate_frontier doc e
  rw [BoundaryTable.drawing] at hpainted
  by_cases hpast : ∃ f, a.table.frontier = some f ∧ f.offset ≤ doc.lineStart e.pos
  · obtain ⟨f, hf, hle⟩ := hpast
    rw [BoundaryTable.reach_of_some hf] at hreach hpainted
    rw [Analysis.invalidate_table_of_past hf hle, BoundaryTable.drawing,
      BoundaryTable.reach_of_some hf]
    rw [← List.append_nil a.table.entries] at hascends hpainted
    exact hfollowed.painted_cut hedit htokens hascends hascends.of_append_left hreach
      (Nat.le_refl _) hle (fun b hb => absurd hb List.not_mem_nil) (.inr (.inl rfl)) hpainted
  · rw [Analysis.invalidate_table_of_not_past hpast] at hf' ⊢
    obtain rfl := Option.some.inj hf'
    obtain ⟨rest, hentries, hkept, hrest, hseam⟩ := keptBefore_rest hascends (doc.lineStart e.pos)
    have hle : lastOffset (keptBefore a.table.entries (doc.lineStart e.pos)) ≤
        a.table.reach text.size := by
      rcases hseam with hzero | ⟨b, hb, hat⟩
      · rw [hzero]
        exact Nat.zero_le _
      · rw [← hat]
        refine h.table.le_reach ?_
        rw [hentries]
        exact List.mem_append_left rest hb
    show Painted p' dirty'
      (lex.drawing doc.chars (keptBefore a.table.entries (doc.lineStart e.pos)) 0
        (lastOffset (keptBefore a.table.entries (doc.lineStart e.pos)))) 0
      (lastOffset (keptBefore a.table.entries (doc.lineStart e.pos))) 0
    generalize keptBefore a.table.entries (doc.lineStart e.pos) = kept at *
    rw [hentries] at hascends hpainted
    exact hfollowed.painted_cut hedit htokens hascends hkept hreach hle hle' hrest
      (hseam.imp id .inr) hpainted

/-- **An edit that is not overlooked keeps the paint in step** with the table that is cut back. -/
theorem invalidate (h : InStep lex text a p dirty) (htokens : lex.TokensLocal)
    (hlocal : lex.LineLocal) (hedit : Edited text doc.chars e)
    (hfollowed : Followed doc e p p' dirty dirty') (hnot : ¬a.Overlooks lex doc e) :
    InStep lex doc.chars (a.invalidate doc e) p' dirty' where
  table := (h.faithful.invalidate hlocal hedit hnot).table
  landed := h.landed_invalidate hedit
  laid := hfollowed.laid
  upto := hfollowed.upto
  painted := h.painted_invalidate htokens hedit hfollowed
  aside := by
    intro s' hs'
    obtain ⟨f', hf', hle'⟩ := h.invalidate_frontier doc e
    have hstart := doc.lineStart_le e.pos
    have hstops := e.stops
    -- the table is cut back to the edited line, and what is set aside lies behind the edit
    have hbehind : ∀ b₀ b : Boundary, e.oldStop < b₀.offset →
        b.offset = shift b₀.offset e.delta → f'.offset ≤ b.offset := by
      intro b₀ b hlt heq
      have := shift_of_le (Nat.le_of_lt hlt)
      omega
    rcases Analysis.invalidate_saved hs' with ⟨s, hs, hadjust⟩ | hcapture
    · obtain ⟨horigin, hmoved⟩ := h.adjust hedit hfollowed hs hadjust
      refine ⟨⟨f', hf', ?_⟩, horigin⟩
      intro b hb
      obtain ⟨b₀, -, hlt, heq⟩ := hmoved b hb
      exact hbehind b₀ b hlt heq
    · obtain ⟨horigin, hmoved⟩ := h.capture hedit hfollowed hcapture
      refine ⟨⟨f', hf', ?_⟩, horigin⟩
      intro b hb
      obtain ⟨b₀, -, hlt, heq⟩ := hmoved b hb
      exact hbehind b₀ b hlt heq

end InStep

/-! ## An edit that leaves boundaries as they were -/

/-- Before a line start all is drawn from what has been scanned up to there. -/
theorem Lexicon.Scans.clipped_drawing {L x y : Nat} {front : List Boundary} {at' : ScanState}
    (h : lex.Scans text 0 .outside front L at') (hlawful : lex.Lawful) (htokens : lex.TokensLocal)
    (hline : IsLineStart text L) (hsize : L ≤ text.size) (hy : y ≤ L) :
    clipped (lex.drawing text (lex.boundaries text 0 .outside) 0 text.size) x y =
      clipped (lex.drawing text front 0 L) x y := by
  have hascends : Ascends 0 (lex.boundaries text 0 .outside) :=
    .of_regular (Lexicon.regular_boundaries lex text 0 .outside)
  rw [h.boundaries hlawful] at hascends ⊢
  exact Lexicon.clipped_drawing_append htokens hascends (.inl hline) hsize (Nat.le_refl _)
    (fun b hb => (Lexicon.regular_boundaries lex text L at').le_offset hb) hy

/-- Before a line start up to which nothing has changed, all is drawn as before. -/
theorem CutAt.clipped_drawing {L : Nat} (hcut : CutAt text doc.chars L) (htokens : lex.TokensLocal)
    (hlocal : lex.LineLocal) {x y : Nat} (hy : y ≤ L) :
    clipped (lex.drawing doc.chars (lex.boundaries doc.chars 0 .outside) 0 doc.chars.size) x y =
      clipped (lex.drawing text (lex.boundaries text 0 .outside) 0 text.size) x y := by
  have hsize := hcut.size
  have hline := hcut.line_before
  obtain ⟨state, hscan⟩ := Lexicon.exists_scans hlocal.isLawful text 0 .outside (Nat.zero_le _)
  obtain ⟨front, more, at', -, hbefore, -, hlt, -⟩ :=
    hscan.cut hlocal hline hsize (Nat.zero_le L) (Nat.le_succ_of_le hsize)
  have hbefore' := hbefore.before hlocal hcut.line hsize hcut.size' hcut.agree (Nat.le_refl L) hlt
  -- both texts have the same boundaries up to the line start, and others from there on
  rw [hbefore'.clipped_drawing hlocal.isLawful htokens hcut.line hcut.size' hy,
    hbefore.clipped_drawing hlocal.isLawful htokens hline hsize hy,
    Lexicon.drawing_congr htokens (.of_regular hbefore.regular) hsize hcut.size' hcut.agree]

/-- **Up to the edited lines and behind them** the paint follows when both tables get there, and
    what the first has behind the edited lines the second has as well. -/
theorem Followed.painted_along (hfollowed : Followed doc e p p' dirty dirty')
    (hedit : Edited text doc.chars e) (htokens : lex.TokensLocal) (hlocal : lex.LineLocal)
    {t t' : BoundaryTable} (h : t.Holds lex text) (h' : t'.Holds lex doc.chars)
    (hlanded : t.Landed text) (hlanded' : t'.Landed doc.chars)
    (hgot : e.pos ≤ t.reach text.size) (hgot' : e.pos ≤ t'.reach doc.chars.size)
    (hbehind : doc.lineEnd e.newStop + 1 < t'.reach doc.chars.size →
      ∃ front ahead front' w, t.entries = front ++ ahead ∧
        t'.entries = front' ++ ahead.map (·.shifted e.delta) ∧
        lex.Aligned text front ahead doc.chars front' w e.delta ∧ e.oldStop ≤ w ∧
        shift w e.delta = doc.lineEnd e.newStop + 1 ∧ w ≤ t.reach text.size ∧
        t'.reach doc.chars.size = shift (t.reach text.size) e.delta)
    (hpainted : Painted p dirty (t.drawing lex text) 0 (t.reach text.size) 0) :
    Painted p' dirty' (t'.drawing lex doc.chars) 0 (t'.reach doc.chars.size) 0 := by
  have hstart := doc.lineStart_le e.pos
  refine hfollowed.painted hedit.pos_le.2 h'.laid_drawing h'.reach_le
    (fun x y hx hxy hy hclean => ?_) fun x y hfar hx hxy hclean => ?_
  · have hnone : clipped p.spans (t.reach text.size) y = [] := clipped_of_le (by omega)
    have hnone' : clipped p'.spans (t'.reach doc.chars.size) y = [] := clipped_of_le (by omega)
    rw [hfollowed.window_before hpainted hxy (by omega) (by omega) hclean, hnone, hnone',
      h.clipped_drawing hlocal.isLawful htokens hlanded (by omega),
      h'.clipped_drawing hlocal.isLawful htokens hlanded' (by omega),
      hedit.cutAt.clipped_drawing htokens hlocal hy]
  · obtain ⟨front, ahead, front', w, hfront, hfront', haligned, hold, hline, hw, hreach⟩ :=
      hbehind (by omega)
    have hcarried := hpainted.carried hfollowed (Nat.zero_le w)
      (by have := haligned.looks.nonneg; omega) (by rwa [shift_zero])
    rw [Int.zero_add, BoundaryTable.drawing, hfront] at hcarried
    have hsettled := hcarried.settle haligned htokens hw h.reach_le
    rw [← hfront', ← hreach] at hsettled
    exact painted_zero.1 hsettled x y (by omega) hxy (Nat.le_of_lt hx) hclean

namespace Analysis

variable {w : Nat}

/-- The landing is the line start behind the edited lines. -/
theorem Landing.line_eq (h : Landing text doc e w) : shift w e.delta = doc.lineEnd e.newStop + 1 := by
  have hsize : shift w e.delta ≤ doc.length := by
    rcases h.window with ⟨-, hat⟩ | ⟨-, hat, -, hnl, -⟩
    · rw [hat]
      exact (doc.isLineBreak_snapForward _).1
    · rw [hat, doc.length_eq]
      exact (Array.getElem?_eq_some_iff.1 hnl).1
  have hlt : e.newStop < shift w e.delta := by
    rcases h.window with ⟨hlt, hat⟩ | ⟨-, hat, -⟩ <;> omega
  have hend := doc.lineEnd_lt h.line' hlt hsize
  have hge := doc.le_lineEnd (Nat.le_trans (Nat.le_of_lt hlt) hsize)
  refine Nat.le_antisymm ?_ hend
  rcases h.window with ⟨-, hat⟩ | ⟨-, hat, -⟩
  · have hsnap : windowStop doc e = doc.snapForward (doc.lineEnd e.newStop) := rfl
    rw [hat, hsnap, Document.snapForward_eq, doc.lineEnd_lineEnd]
    split <;> omega
  · omega

/-- Unless the edited lines are the last ones there is a landing. -/
theorem windowStop_lt (h : doc.lineEnd e.newStop + 1 < doc.length) : windowStop doc e < doc.length := by
  rw [windowStop, Document.snapForward_eq, doc.lineEnd_lineEnd]
  split <;> omega

namespace Absorbed

variable {a a' : Analysis} {kept taken left : List Boundary} {state : ScanState}

/-- Behind the edited lines an absorbed edit has left all as it was. -/
theorem aligned (h : Absorbed lex doc a e a' kept taken left state) (hlocal : lex.LineLocal)
    (hedit : Edited text doc.chars e) (hholds : a.table.Holds lex text)
    (hseen : ¬Unseen lex a doc e) (hlt : windowStop doc e < doc.length) :
    ∃ w, Landing text doc e w ∧ w ≤ a.table.reach text.size ∧
      lex.Aligned text (kept ++ taken) left doc.chars (kept ++ taken.map (carried e)) w e.delta := by
  obtain ⟨w, more, behind, at', q, last, hmeets⟩ := h.meets hlocal hedit hholds hlt
  obtain ⟨rfl, hlands⟩ := h.lands hlocal hedit hlt hmeets hseen
  obtain ⟨hland, hleft, hbefore, hafter, hbefore_lt, -, -, -, -⟩ := hmeets
  rw [List.append_nil] at hbefore hbefore_lt
  rw [List.nil_append] at hleft
  subst hleft
  have hreach : w ≤ a.table.reach text.size := by
    cases hf : a.table.frontier with
    | none =>
        rw [BoundaryTable.reach_of_none hf]
        exact hland.size
    | some f =>
        rw [BoundaryTable.reach_of_some hf]
        exact h.landing_le_frontier hland hf
  have hfront : ∀ b ∈ kept ++ taken, b.offset ≤ w := fun b hb => Nat.le_of_lt (hbefore_lt b hb)
  have hfront' : ∀ b ∈ kept ++ taken.map (carried e), b.offset ≤ shift w e.delta :=
    fun b hb => (hlands.le_offset hb).2
  have hascends := hholds.ascends
  have hascends' := (h.holds hlocal hedit hholds hseen).ascends
  rw [h.entries, ← List.append_assoc] at hascends
  rw [h.result] at hascends'
  refine ⟨w, hland, hreach,
    { looks := hedit.looksAhead hland.behind hland.size
      ascends := hascends
      ascends' := hascends'
      front_le := hfront
      front_le' := hfront'
      from_on := .of_regular hafter.regular
      tag := (hbefore.tagThrough hfront).trans (hlands.tagThrough hfront').symm
      clean := .inr (.inl hland.line)
      clean' := .inr (.inl hland.line') }⟩

/-- The table has got past the edit. -/
theorem oldStop_le_reach (h : Absorbed lex doc a e a' kept taken left state)
    (hedit : Edited text doc.chars e) : e.oldStop ≤ a.table.reach text.size := by
  cases hf : a.table.frontier with
  | none =>
      rw [BoundaryTable.reach_of_none hf]
      exact hedit.inside
  | some f =>
      rw [BoundaryTable.reach_of_some hf]
      exact Nat.le_of_lt (h.far f hf).1

/-- Where the table has got to moves along. -/
theorem reach_eq (h : Absorbed lex doc a e a' kept taken left state)
    (hedit : Edited text doc.chars e) :
    a'.table.reach doc.chars.size = shift (a.table.reach text.size) e.delta := by
  rw [h.result]
  cases hf : a.table.frontier with
  | none =>
      rw [BoundaryTable.reach_of_none hf, BoundaryTable.reach_of_none (by rfl)]
      exact hedit.shift_size.symm
  | some f =>
      rw [BoundaryTable.reach_of_some hf]
      rfl

/-- The frontier lands where it has landed before. -/
theorem landed (h : Absorbed lex doc a e a' kept taken left state)
    (hedit : Edited text doc.chars e) (hholds : a.table.Holds lex text)
    (hlanded : a.table.Landed text) : a'.table.Landed doc.chars := by
  intro f' hf'
  rw [h.result] at hf' ⊢
  obtain ⟨f, hf, rfl⟩ := Option.map_eq_some_iff.1 hf'
  have hfar := (h.far f hf).1
  have hreach := hholds.reach_le
  rw [BoundaryTable.reach_of_some hf] at hreach
  rcases hlanded f hf with hline | ⟨b, hb, hat⟩
  · exact .inl ((hedit.looksAhead hfar hreach).before.trans hline)
  · right
    rw [h.entries] at hb
    rcases List.mem_append.1 hb with hb | hb
    · have := h.kept_lt b hb
      have := e.stops
      omega
    · rcases List.mem_append.1 hb with hb | hb
      · refine ⟨carried e b, ?_, ?_⟩
        · exact List.mem_append_left _ (List.mem_append_right _ (List.mem_map_of_mem hb))
        · have hmoved := moved?_carried (h.moved b hb)
          rw [moved?_of_lt (by omega), hat] at hmoved
          exact (Option.some.inj hmoved).symm
      · refine ⟨b.shifted e.delta, List.mem_append_right _ (List.mem_map_of_mem hb), ?_⟩
        show shift b.offset e.delta = shift f.offset e.delta
        rw [hat]

end Absorbed

end Analysis

namespace InStep

variable {a a' : Analysis}

/-- **An absorbed edit keeps the paint in step** when nothing goes unseen. -/
theorem absorb (h : InStep lex text a p dirty) (htokens : lex.TokensLocal)
    (hlocal : lex.LineLocal) (hedit : Edited text doc.chars e)
    (hfollowed : Followed doc e p p' dirty dirty') {budget : Nat}
    (hup : a.update? lex doc e budget = some a') (hseen : ¬Analysis.Unseen lex a doc e) :
    InStep lex doc.chars a' p' dirty' := by
  obtain ⟨kept, taken, left, state, habsorbed⟩ :=
    Analysis.absorbed_of_update? hlocal hedit h.table hup
  have hholds' := habsorbed.holds hlocal hedit h.table hseen
  have hreach := habsorbed.reach_eq hedit
  have hlanded' := habsorbed.landed hedit h.table h.landed
  have hstops := e.stops
  have hfar := habsorbed.oldStop_le_reach hedit
  have hfar' : e.newStop ≤ a'.table.reach doc.chars.size := by
    rw [hreach, newStop_eq_shift]
    exact shift_mono hfar
  refine ⟨hholds', hlanded', hfollowed.laid, hfollowed.upto, ?_, ?_⟩
  · refine hfollowed.painted_along hedit htokens hlocal h.table hholds' h.landed hlanded'
      (by omega) (by omega) (fun hlt => ?_) h.painted
    have hsize := hholds'.reach_le
    obtain ⟨w, hland, hw, haligned⟩ := habsorbed.aligned hlocal hedit h.table hseen
      (Analysis.windowStop_lt (doc.length_eq ▸ Nat.lt_of_lt_of_le hlt hsize))
    refine ⟨kept ++ taken, left, kept ++ taken.map (Analysis.carried e), w, ?_, ?_, haligned,
      Nat.le_of_lt hland.behind, hland.line_eq, hw, hreach⟩
    · rw [habsorbed.entries, List.append_assoc]
    · rw [habsorbed.result]
  · intro s' hs'
    have hresult := habsorbed.result
    rw [hresult] at hs'
    obtain ⟨s, hs, hadjust⟩ := Option.bind_eq_some_iff.1 hs'
    obtain ⟨⟨f, hf, hahead⟩, -⟩ := h.aside s hs
    obtain ⟨horigin, hmoved⟩ := h.adjust hedit hfollowed hs hadjust
    refine ⟨⟨{ f with offset := shift f.offset e.delta }, ?_, ?_⟩, horigin⟩
    · rw [hresult, hf]
      rfl
    · intro b hb
      obtain ⟨b₀, hb₀, -, heq⟩ := hmoved b hb
      rw [heq]
      exact shift_mono (hahead b₀ hb₀)

end InStep

/-! ## An edit when there are no regions -/

/-- An empty, complete table moves along. -/
theorem Followed.painted_plain (hfollowed : Followed doc e p p' dirty dirty')
    (hedit : Edited text doc.chars e) (htokens : lex.TokensLocal) (hlocal : lex.LineLocal)
    {t : BoundaryTable} (hempty : t.entries = []) (hcomplete : t.frontier = none)
    (h : t.Holds lex text) (h' : t.Holds lex doc.chars)
    (hpainted : Painted p dirty (t.drawing lex text) 0 (t.reach text.size) 0) :
    Painted p' dirty' (t.drawing lex doc.chars) 0 (t.reach doc.chars.size) 0 := by
  have hlanded : ∀ text, t.Landed text := fun text f hf =>
    absurd (hcomplete.symm.trans hf).symm (Option.some_ne_none f)
  have hreach : ∀ len, t.reach len = len := BoundaryTable.reach_of_none hcomplete
  obtain ⟨hpos, hpos'⟩ := hedit.pos_le
  refine hfollowed.painted_along hedit htokens hlocal h h' (hlanded _) (hlanded _)
    (by rwa [hreach]) (by rwa [hreach]) (fun hlt => ?_) hpainted
  rw [hreach] at hlt
  obtain ⟨w, hland⟩ :=
    Analysis.exists_landing hedit (Analysis.windowStop_lt (doc.length_eq ▸ hlt))
  refine ⟨[], [], [], w, hempty, hempty,
    { looks := hedit.looksAhead hland.behind hland.size
      ascends := trivial
      ascends' := trivial
      front_le := by simp
      front_le' := by simp
      from_on := trivial
      tag := rfl
      clean := .inr (.inl hland.line)
      clean' := .inr (.inl hland.line') },
    Nat.le_of_lt hland.behind, hland.line_eq, by rw [hreach]; exact hland.size, ?_⟩
  rw [hreach, hreach]
  exact hedit.shift_size.symm

/-- Without regions an edit needs nothing more. -/
theorem InStep.plain {a : Analysis} (h : InStep lex text a p dirty) (htokens : lex.TokensLocal)
    (hlocal : lex.LineLocal) (hregions : lex.hasRegions = false) (hquiet : a.Quiet)
    (hedit : Edited text doc.chars e) (hfollowed : Followed doc e p p' dirty dirty') :
    InStep lex doc.chars a p' dirty' := by
  rcases hquiet with rfl | rfl
  · exact inStep_fresh lex hfollowed.laid hfollowed.upto
  · have hholds : BoundaryTable.Holds { entries := [], frontier := none } lex doc.chars :=
      (Lexicon.boundaries_of_not_hasRegions hregions 0 .outside).symm
    refine ⟨hholds, fun f hf => absurd hf.symm (Option.some_ne_none f), hfollowed.laid,
      hfollowed.upto, ?_, fun s hs => absurd hs.symm (Option.some_ne_none s)⟩
    exact hfollowed.painted_plain hedit htokens hlocal rfl rfl h.table hholds h.painted

end Highlighter
