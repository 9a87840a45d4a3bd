import Highlighter.Proofs.Painted
import Highlighter.Session

/-! # Passes — rendering the stale parts

    A pass renders whole lines around a stale part, widened to whole regions.  So it begins
    and ends at seams (`widenToRegions_spec`): what it draws is what a drawing of the whole
    text shows there, and painting it over keeps the paint in step (`InStep.render`). -/

namespace Highlighter

variable {lex : Lexicon} {text : Array Char} {entries : List Boundary}

/-! ## Widening -/

/-- The last boundary up to an offset is one of the boundaries, and not behind it. -/
theorem lastThrough_mem {o : Nat} {b : Boundary} (hb : b.offset ≤ o) (bs : List Boundary) :
    lastThrough o b bs ∈ b :: bs ∧ (lastThrough o b bs).offset ≤ o := by
  induction bs generalizing b with
  | nil => exact ⟨List.mem_cons_self, hb⟩
  | cons b' rest ih =>
      rw [lastThrough]
      split
      · rename_i hle
        obtain ⟨hmem, hoffset⟩ := ih hle
        exact ⟨List.mem_cons_of_mem b hmem, hoffset⟩
      · exact ⟨List.mem_cons_self, hb⟩

/-- The boundary that governs an offset is one of those at or before it. -/
theorem governing?_eq_some {o : Nat} {b : Boundary} (h : governing? entries o = some b) :
    b ∈ entries ∧ b.offset ≤ o := by
  cases entries with
  | nil => exact absurd h.symm (Option.some_ne_none b)
  | cons b' rest =>
      rw [governing?] at h
      split at h
      · rename_i hle
        obtain rfl := Option.some.inj h
        exact lastThrough_mem hle rest
      · exact absurd h.symm (Option.some_ne_none b)

/-- A line start is a seam when the boundary that governs it, if any, is a close. -/
theorem seamAt_of_line {a o : Nat} (hline : IsLineStart text a) (hoa : o ≤ a)
    (hnext : ∀ b ∈ entries, b.offset ≤ o ∨ a < b.offset)
    (hgoverning : ∀ b, governing? entries o = some b → b.opens = false) :
    lex.SeamAt text entries a := by
  have htag : tagThrough none entries o = none := by
    rw [← tagAt?_eq, tagAt?]
    cases hgov : governing? entries o with
    | none => rfl
    | some b =>
        have := hgoverning b hgov
        rw [Boundary.opens] at this
        simpa using this
  refine .inr ⟨hline, ?_⟩
  rw [tagThrough_eq hnext hoa, htag, Option.bind_none]

/-- Where the region over an offset starts, else the offset. -/
def regionStart (entries : List Boundary) (p : Nat) : Nat :=
  match governing? entries p with
  | some b => if b.opens then b.offset else p
  | none => p

/-- Where the region before an offset stops, `limit` when it is open still; else the offset. -/
def regionStop (entries : List Boundary) (q limit : Nat) : Nat :=
  match governing? entries (q - 1) with
  | some b =>
    if b.opens then
      ((entries.drop (countThrough entries (q - 1))).head?.map (·.offset)).getD limit
    else q
  | none => q

/-- A stretch is widened to the regions over its start and over its end. -/
theorem widenToRegions_eq {p q limit : Nat} (h : p < q) :
    widenToRegions entries ⟨p, q⟩ limit =
      ⟨regionStart entries p, max (min (regionStop entries q limit) limit) q⟩ := by
  show Extent.mk (regionStart entries p)
    (max (min (if q ≤ p then q else regionStop entries q limit) limit) q) = _
  rw [if_neg (Nat.not_le.2 h)]

/-- A stretch that begins with a line is widened back to where a drawing can be cut. -/
theorem regionStart_spec (lex : Lexicon) (entries : List Boundary) {p : Nat}
    (hline : IsLineStart text p) :
    regionStart entries p ≤ p ∧ lex.SeamAt text entries (regionStart entries p) := by
  have hplain : (∀ b, governing? entries p = some b → b.opens = false) →
      lex.SeamAt text entries p :=
    seamAt_of_line hline (Nat.le_refl p) fun b _ => (Nat.lt_or_ge p b.offset).symm
  rw [regionStart]
  cases hgov : governing? entries p with
  | none => exact ⟨Nat.le_refl p, hplain (by simp [hgov])⟩
  | some b =>
      obtain ⟨hmem, hle⟩ := governing?_eq_some hgov
      by_cases hopens : b.opens = true
      · simp only [hopens, if_true]
        exact ⟨hle, .inl ⟨b, hmem, rfl⟩⟩
      · simp only [hopens, Bool.false_eq_true, if_false]
        exact ⟨Nat.le_refl p, hplain (by simp [hgov, hopens])⟩

/-- A stretch that ends with a line is widened on to where a drawing can be cut. -/
theorem regionStop_spec (lex : Lexicon) (h : Ascends 0 entries) {q reach : Nat} (hq : q ≤ reach)
    (hreach : ∀ b ∈ entries, b.offset ≤ reach) (hline : q = reach ∨ IsLineStart text q) :
    q ≤ regionStop entries q reach ∧ regionStop entries q reach ≤ reach ∧
      (regionStop entries q reach = reach ∨
        lex.SeamAt text entries (regionStop entries q reach)) := by
  have hplain : (∀ b, governing? entries (q - 1) = some b → b.opens = false) →
      q = reach ∨ lex.SeamAt text entries q := by
    intro hgoverning
    refine hline.imp id ?_
    intro hline
    by_cases hat : ∃ b ∈ entries, b.offset = q
    · exact .inl hat
    · refine seamAt_of_line hline (Nat.sub_le q 1) ?_ hgoverning
      intro b hb
      have : b.offset ≠ q := fun heq => hat ⟨b, hb, heq⟩
      omega
  rw [regionStop]
  cases hgov : governing? entries (q - 1) with
  | none => exact ⟨Nat.le_refl q, hq, hplain (by simp [hgov])⟩
  | some b =>
      by_cases hopens : b.opens = true
      · -- a region that is open still ends at the next boundary, or where analysis has got to
        simp only [hopens, if_true, drop_countThrough]
        have hbeyond := h.beyond (o := q - 1)
        cases hnext : beyond entries (q - 1) with
        | nil => exact ⟨hq, Nat.le_refl reach, .inl rfl⟩
        | cons x rest =>
            have hsub : (beyond entries (q - 1)).Sublist entries := List.dropWhile_sublist _
            have hmem : x ∈ entries := hsub.subset (by rw [hnext]; exact List.mem_cons_self)
            rw [hnext] at hbeyond
            have hle := hbeyond.1
            refine ⟨?_, hreach x hmem, .inr (.inl ⟨x, hmem, rfl⟩)⟩
            show q ≤ x.offset
            omega
      · simp only [hopens, Bool.false_eq_true, if_false]
        exact ⟨Nat.le_refl q, hq, hplain (by simp [hgov, hopens])⟩

/-- **Widening ends at seams**, or where analysis has got to. -/
theorem widenToRegions_spec (lex : Lexicon) (h : Ascends 0 entries) {p q reach : Nat} (hlt : p < q)
    (hq : q ≤ reach) (hreach : ∀ b ∈ entries, b.offset ≤ reach) (hline : IsLineStart text p)
    (hline' : q = reach ∨ IsLineStart text q) :
    ∃ u v, widenToRegions entries ⟨p, q⟩ reach = ⟨u, v⟩ ∧ u ≤ p ∧ q ≤ v ∧ v ≤ reach ∧
      lex.SeamAt text entries u ∧ (v = reach ∨ lex.SeamAt text entries v) := by
  obtain ⟨hle, hseam⟩ := regionStart_spec lex entries hline
  obtain ⟨hge, hle', hseam'⟩ := regionStop_spec lex h hq hreach hline'
  refine ⟨_, _, ?_, hle, hge, hle', hseam, hseam'⟩
  rw [widenToRegions_eq hlt, Nat.min_eq_left hle', Nat.max_eq_left hge]

/-! ## Painting a stretch over -/

/-- What windows show when a stretch has been replaced. -/
theorem clipped_replaced {l l' spans : List Span} {u v hi : Nat} (h : Laid 0 l hi)
    (hl' : l' = clipped l 0 u ++ spans ++ clipped l v hi) (a b : Nat) :
    clipped l' a b = clipped l a (min u b) ++ clipped spans a b ++ clipped l (max v a) b := by
  have hmin : min hi b = min b hi := Nat.min_comm hi b
  rw [hl', clipped_append, clipped_append, clipped_clipped, clipped_clipped, Nat.zero_max, hmin,
    ← h.clipped_min]

/-- A drawing is what is left of it around a stretch between seams, and what is drawn there. -/
theorem BoundaryTable.Holds.drawing_around {t : BoundaryTable} (h : t.Holds lex text)
    (htokens : lex.TokensLocal) {u v : Nat} (huv : u ≤ v) (hv : v ≤ t.reach text.size)
    (hseam : lex.SeamAt text t.entries u)
    (hseam' : v = t.reach text.size ∨ lex.SeamAt text t.entries v) :
    t.drawing lex text = clipped (t.drawing lex text) 0 u ++ lex.drawing text t.entries u v ++
      clipped (t.drawing lex text) v (t.reach text.size) := by
  have hascends := h.ascends
  have hreach := h.reach_le
  have hu := Nat.le_trans huv hv
  have hfront : clipped (lex.drawing text t.entries 0 (t.reach text.size)) 0 u =
      lex.drawing text t.entries 0 u :=
    Lexicon.clipped_drawing htokens hascends (Nat.le_refl 0) (Nat.zero_le u) hu hreach
      (.inr (.inl isLineStart_zero)) (.inr hseam.cleanAt)
  have hlast : clipped (lex.drawing text t.entries 0 (t.reach text.size)) v (t.reach text.size) =
      lex.drawing text t.entries v (t.reach text.size) := by
    rcases hseam' with heq | hseam'
    · rw [heq, clipped_of_le (Nat.le_refl _), Lexicon.drawing_self lex hascends hreach]
    · exact Lexicon.clipped_drawing htokens hascends (Nat.zero_le v) hv (Nat.le_refl _) hreach
        hseam'.cleanAt (.inl rfl)
  rw [BoundaryTable.drawing, hfront, hlast,
    Lexicon.drawing_split htokens hascends (Nat.zero_le u) hu hreach (.inr hseam),
    Lexicon.drawing_split htokens hascends huv hv hreach hseam', List.append_assoc]

/-- Paint that was replaced before a boundary set aside shows what it did from there on. -/
theorem Origin.Shows.replaced {og : Origin} {p p' : Paint} {dirty dirty' : ExtentSet} {u v : Nat}
    (h : og.Shows lex p dirty)
    (hpast : ∀ b rest, og.tail = b :: rest → v ≤ shift b.offset og.delta)
    (hbehind : ∀ x y, v ≤ x → clipped p'.spans x y = clipped p.spans x y)
    (hdirty : ∀ x ∈ dirty, x ∈ dirty' ∨ (u ≤ x ∧ x < v)) : og.Shows lex p' dirty' where
  landed := h.landed
  painted := by
    intro b rest htail x y hx hxy hhi hclean
    have hge : ∀ {i : Nat}, b.offset ≤ i → v ≤ shift i og.delta :=
      fun hi => Nat.le_trans (hpast b rest htail) (shift_mono hi)
    rw [hbehind _ _ (hge hx), hbehind _ _ (hge (Nat.le_trans hx hhi))]
    refine h.painted b rest htail x y hx hxy hhi ?_
    intro i hi hlt hin
    rcases hdirty i hin with hin | hin
    · exact hclean i hi hlt hin
    · have := hge hx
      omega

namespace InStep

variable {a : Analysis} {p : Paint} {dirty dirty' : ExtentSet} {u v : Nat}

/-- **A stretch between seams can be painted over** with what is drawn there; then nothing of it is
    stale. -/
theorem replaced (h : InStep lex text a p dirty) (htokens : lex.TokensLocal) (huv : u < v)
    (hv : v ≤ a.table.reach text.size) (hseam : lex.SeamAt text a.table.entries u)
    (hseam' : v = a.table.reach text.size ∨ lex.SeamAt text a.table.entries v)
    (hdirty : ∀ x ∈ dirty, x ∈ dirty' ∨ (u ≤ x ∧ x < v)) (hupto : dirty'.Upto text.size) :
    InStep lex text a (p.replace ⟨u, v⟩ (lex.drawing text a.table.entries u v)) dirty' := by
  have hreach := h.table.reach_le
  have hlaid := Lexicon.laid_drawing lex h.table.ascends (Nat.le_of_lt huv) (Nat.le_trans hv hreach)
  have hspans := replace_spans h.laid (Nat.le_of_lt huv) (lex.drawing text a.table.entries u v)
  rw [hlaid.filter_eq] at hspans
  have hshows := clipped_replaced h.laid hspans
  -- the drawing itself is what is left when the stretch is replaced by what is drawn there
  have hdrawn := clipped_replaced h.table.laid_drawing
    (h.table.drawing_around htokens (Nat.le_of_lt huv) hv hseam hseam')
  have hbehind : ∀ x y, v ≤ x →
      clipped (p.replace ⟨u, v⟩ (lex.drawing text a.table.entries u v)).spans x y =
        clipped p.spans x y := by
    intro x y hx
    rw [hshows, clipped_of_le (by omega), hlaid.clipped_apart (.inr hx), Nat.max_eq_right hx,
      List.append_nil, List.nil_append]
  refine ⟨h.table, h.landed, laid_replace h.laid (Nat.le_trans hv hreach) (by rwa [hlaid.filter_eq]),
    hupto, ?_, fun s hs => ?_⟩
  · have hpainted := painted_zero.1 h.painted
    refine painted_zero.2 ?_
    intro x y _ hxy hx hclean
    have hold : ∀ i, x ≤ i → i < y → i < u ∨ v ≤ i → i ∉ dirty := by
      intro i hi hlt hout hin
      rcases hdirty i hin with hin | hin
      · exact hclean i hi hlt hin
      · omega
    have hleft : clipped p.spans x (min u y) = clipped (a.table.drawing lex text) x (min u y) := by
      by_cases hle : x ≤ min u y
      · have hnone : clipped p.spans (a.table.reach text.size) (min u y) = [] :=
          clipped_of_le (by omega)
        rw [hpainted x (min u y) (Nat.zero_le x) hle hx
          fun i hi hlt => hold i hi (by omega) (.inl (by omega)), hnone, List.append_nil]
      · rw [clipped_of_le (by omega), clipped_of_le (by omega)]
    have hright : clipped p.spans (max v x) y = clipped (a.table.drawing lex text) (max v x) y ++
        clipped p.spans (a.table.reach text.size) y := by
      by_cases hle : max v x ≤ y
      · exact hpainted (max v x) y (Nat.zero_le _) hle (by omega)
          fun i hi hlt => hold i (by omega) hlt (.inr (by omega))
      · rw [clipped_of_le (by omega), clipped_of_le (by omega), clipped_of_le (by omega)]
        rfl
    rw [hbehind _ y hv, hshows, hdrawn, hleft, hright, List.append_assoc]
    simp only [List.append_assoc]
  · obtain ⟨⟨f, hf, hfar⟩, og, hfits, hogshows⟩ := h.aside s hs
    rw [BoundaryTable.reach_of_some hf] at hv
    -- what is set aside lies past the frontier, so past what is replaced
    refine ⟨⟨f, hf, hfar⟩, og, hfits, hogshows.replaced ?_ hbehind hdirty⟩
    intro b rest htail
    refine Nat.le_trans hv (hfar (b.shifted og.delta) ?_)
    rw [hfits.entries, htail]
    exact List.mem_cons_self

end InStep

/-! ## One pass -/

/-- **A pass** paints a stretch over that holds the part and lies between seams. -/
theorem renderPart_spec {t : BoundaryTable} {doc : Document} (htokens : lex.TokensLocal)
    (h : t.Holds lex doc.chars) (p : Paint) {part : Extent} (hlt : part.start < part.stop)
    (hle : part.stop ≤ t.reach doc.length) :
    ∃ u v, u ≤ part.start ∧ part.stop ≤ v ∧ v ≤ t.reach doc.length ∧
      lex.SeamAt doc.chars t.entries u ∧
      (v = t.reach doc.length ∨ lex.SeamAt doc.chars t.entries v) ∧
      Session.renderPart lex t doc p part =
        (p.replace ⟨u, v⟩ (lex.drawing doc.chars t.entries u v), ⟨u, v⟩) := by
  have hlen := doc.length_eq
  have hreach : t.reach doc.length ≤ doc.length := hlen ▸ h.reach_le
  have hsize : part.stop ≤ doc.length := Nat.le_trans hle hreach
  have hsnap := doc.snapToLines_eq (e := part) (Nat.le_of_lt hlt) hsize
  have hstart := doc.lineStart_le part.start
  have hend := doc.le_lineEnd hsize
  -- the lines around the part, as far as analysis has got
  obtain ⟨q, hq⟩ : ∃ q, q = min (min (doc.lineEnd part.stop + 1) doc.length) (t.reach doc.length) :=
    ⟨_, rfl⟩
  have hstop : part.stop ≤ q := by omega
  have hline : q = t.reach doc.length ∨ IsLineStart doc.chars q := by
    rcases Nat.lt_or_ge (min (doc.lineEnd part.stop + 1) doc.length) (t.reach doc.length)
      with hshort | hfar
    · have hq' : q = doc.lineEnd part.stop + 1 := by omega
      rw [hq']
      exact .inr (doc.isLineStart_lineEnd_succ (by omega))
    · exact .inl (by omega)
  obtain ⟨u, v, hwiden, hu, hv, hv', hseam, hseam'⟩ :=
    widenToRegions_spec lex h.ascends (p := doc.lineStart part.start) (by omega)
      (show q ≤ t.reach doc.length by omega) (fun b hb => hlen ▸ h.le_reach hb)
      (doc.isLineStart_lineStart part.start) hline
  refine ⟨u, v, by omega, by omega, hv', hseam, hseam', ?_⟩
  have hq' : max (min (min (doc.lineEnd part.stop + 1) doc.length) (t.reach doc.length)) part.stop =
      q := by omega
  rw [Session.renderPart]
  simp only [hsnap, hq', hwiden]
  rw [render_eq htokens doc h.ascends (by omega) (Nat.le_trans hv' hreach)]

namespace InStep

variable {doc : Document} {a : Analysis} {p : Paint} {dirty : ExtentSet}

theorem pass (h : InStep lex doc.chars a p dirty) (htokens : lex.TokensLocal) {part : Extent}
    (hlt : part.start < part.stop) (hle : part.stop ≤ a.table.reach doc.length) :
    InStep lex doc.chars a (Session.renderPart lex a.table doc p part).1
      ((dirty.erase part).erase (Session.renderPart lex a.table doc p part).2) := by
  obtain ⟨u, v, hu, hv, hv', hseam, hseam', heq⟩ := renderPart_spec htokens h.table p hlt hle
  rw [heq]
  rw [doc.length_eq] at hv' hseam'
  refine h.replaced htokens (by omega) hv' hseam hseam' ?_ h.upto.erase.erase
  intro x hx
  by_cases hin : u ≤ x ∧ x < v
  · exact .inr hin
  · refine .inl (ExtentSet.mem_erase.2 ⟨ExtentSet.mem_erase.2 ⟨hx, fun hpart => hin ?_⟩, hin⟩)
    have h1 := hpart.1
    have h2 := hpart.2
    omega

/-- **Refreshing a range keeps the paint in step**, and leaves nothing of it dirty. -/
theorem refresh {t : Staleness} (h : InStep lex doc.chars a p t.dirty) (htokens : lex.TokensLocal)
    {e : Extent} (hle : e.stop ≤ a.table.reach doc.length ∨ a.table.frontier = none) :
    InStep lex doc.chars a (t.refresh e (Session.renderPart lex a.table doc) p).2.1
        (t.refresh e (Session.renderPart lex a.table doc) p).1.dirty ∧
      ∀ x ∈ (t.refresh e (Session.renderPart lex a.table doc) p).1.dirty, x ∈ t.dirty ∧ x ∉ e := by
  have hpass : ∀ (part : Extent) (d : ExtentSet) (p : Paint), part.start < part.stop →
      e.start ≤ part.start → part.stop ≤ e.stop → part.stop ≤ doc.chars.size →
      InStep lex doc.chars a p d →
        InStep lex doc.chars a (Session.renderPart lex a.table doc p part).1
          ((d.erase part).erase (Session.renderPart lex a.table doc p part).2) := by
    intro part d p hlt _ hstop hsize hstep
    refine hstep.pass htokens hlt ?_
    rcases hle with hle | hnone
    · exact Nat.le_trans hstop hle
    · rw [BoundaryTable.reach_of_none hnone, doc.length_eq]
      exact hsize
  exact ⟨Staleness.refresh_keeps (motive := fun d p => InStep lex doc.chars a p d)
    (fun _ hf => h.upto.stop_le hf) hpass h, (Staleness.refresh_clean h.upto.canonical p).1⟩

end InStep

end Highlighter
