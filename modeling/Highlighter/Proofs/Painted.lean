import Highlighter.Proofs.Drawing
import Highlighter.Proofs.Repair
import Highlighter.Proofs.Stale

/-! # Painted text — paint in step with the boundary table

    Wherever nothing is dirty the paint shows what the table says, up to where the table
    holds (`Painted`); past that it may show anything, but nothing that reaches across.
    The same is true, from the first of them on, of the boundaries that are set aside: the
    paint still shows what the earlier text showed there, moved along.

    A batch keeps this (`InStep.batch`): what it scans anew is dirty, and when it meets
    boundaries set aside, what they stand for is painted already.  Rendering keeps it too
    (`InStep.render`), as it paints from seam to seam. -/

namespace Highlighter

variable {lex : Lexicon} {text text' : Array Char}

/-! ## Tags along a scan -/

/-- The tag of the region a scan is in. -/
def ScanState.tag : ScanState → Option Nat
  | .outside => none
  | .inside tag => some tag

namespace Lexicon

@[simp] theorem mark_tag (q : Nat) (d : Nat × ScanState) : (mark q d).tag = d.2.tag := by
  obtain ⟨n, state⟩ := d
  cases state <;> rfl

namespace Scans

variable {p q o : Nat} {state state' : ScanState} {bs : List Boundary}

/-- The tag that a scan comes to governs what follows. -/
theorem tagThrough (h : lex.Scans text p state bs q state') (ho : ∀ b ∈ bs, b.offset ≤ o) :
    tagThrough state.tag bs o = state'.tag := by
  induction h with
  | done => rfl
  | skip _ _ _ ih => exact ih ho
  | @take p q _ _ _ d _ _ _ ih =>
      rw [tagThrough_cons_of_le (ho _ List.mem_cons_self), mark_tag,
        ih fun b hb => ho b (List.mem_cons_of_mem _ hb)]

theorem le_size (h : lex.Scans text p state bs q state') {b : Boundary} (hb : b ∈ bs) :
    b.offset ≤ text.size := by
  induction h with
  | done => exact absurd hb List.not_mem_nil
  | skip _ _ _ ih => exact ih hb
  | @take p q _ _ _ d hp hd _ ih =>
      rcases List.mem_cons.1 hb with rfl | hb
      · exact mark_le_size hd
      · exact ih hb

end Scans

end Lexicon

/-! ## Drawings of a table -/

namespace BoundaryTable

variable {t : BoundaryTable}

/-- The spans of the text up to where the table holds. -/
def drawing (t : BoundaryTable) (lex : Lexicon) (text : Array Char) : List Span :=
  lex.drawing text t.entries 0 (t.reach text.size)

/-- The frontier is a line start or the offset of a boundary. -/
def Landed (t : BoundaryTable) (text : Array Char) : Prop :=
  ∀ f, t.frontier = some f → IsLineStart text f.offset ∨ ∃ b ∈ t.entries, b.offset = f.offset

namespace Holds

/-- Boundaries of a table that holds are in order. -/
theorem ascends (h : t.Holds lex text) : Ascends 0 t.entries := .of_regular h.regular

/-- A table holds up to some place in the text. -/
theorem reach_le (h : t.Holds lex text) : t.reach text.size ≤ text.size := by
  cases hf : t.frontier with
  | none => exact Nat.le_of_eq (reach_of_none hf _)
  | some f =>
      rw [reach_of_some hf]
      exact h.frontier_le hf

/-- A table that holds reaches all of its boundaries. -/
theorem le_reach (h : t.Holds lex text) {b : Boundary} (hb : b ∈ t.entries) :
    b.offset ≤ t.reach text.size := by
  cases hf : t.frontier with
  | none =>
      rw [reach_of_none hf]
      exact h.le_size hb
  | some f =>
      rw [reach_of_some hf]
      exact h.le_frontier hf hb

/-- The spans of a table lie in order, as far as it holds. -/
theorem laid_drawing (h : t.Holds lex text) :
    Laid 0 (t.drawing lex text) (t.reach text.size) :=
  Lexicon.laid_drawing lex h.ascends (Nat.zero_le _) h.reach_le

/-- The boundaries of the text are those of the table, and others past where it holds. -/
theorem exists_more (h : t.Holds lex text) (hlawful : lex.Lawful) :
    ∃ more, lex.boundaries text 0 .outside = t.entries ++ more ∧
      ∀ b ∈ more, t.reach text.size ≤ b.offset := by
  rw [Holds] at h
  cases hf : t.frontier with
  | none =>
      rw [hf] at h
      have h : t.entries = lex.boundaries text 0 .outside := h
      exact ⟨[], by rw [List.append_nil, h], fun b hb => absurd hb List.not_mem_nil⟩
  | some f =>
      rw [hf] at h
      refine ⟨_, h.2.boundaries hlawful, ?_⟩
      intro b hb
      rw [reach_of_some hf]
      exact (Lexicon.regular_boundaries lex text f.offset f.state).le_offset hb

end Holds

end BoundaryTable

/-- A window that ends past the last span shows no more than one that ends there. -/
theorem Laid.clipped_min {l : List Span} {lo hi : Nat} (h : Laid lo l hi) (a b : Nat) :
    Highlighter.clipped l a b = Highlighter.clipped l a (min b hi) := by
  have hself := h.clipped_self (Nat.le_refl lo) (Nat.le_refl hi)
  have hwindow : Highlighter.clipped (Highlighter.clipped l lo hi) a b =
      Highlighter.clipped (Highlighter.clipped l lo hi) a (min b hi) := by
    rw [clipped_clipped, clipped_clipped]
    congr 1
    omega
  rwa [hself] at hwindow

/-- A window that starts before the first span shows no more than one that starts there. -/
theorem Laid.clipped_max {l : List Span} {lo hi : Nat} (h : Laid lo l hi) (a b : Nat) :
    Highlighter.clipped l a b = Highlighter.clipped l (max lo a) b := by
  have hself := h.clipped_self (Nat.le_refl lo) (Nat.le_refl hi)
  have hwindow : Highlighter.clipped (Highlighter.clipped l lo hi) a b =
      Highlighter.clipped (Highlighter.clipped l lo hi) (max lo a) b := by
    rw [clipped_clipped, clipped_clipped]
    congr 1
    omega
  rwa [hself] at hwindow

/-- A window that reaches across a place falls into two there. -/
theorem clipped_across {l l' : List Span} {lo m hi : Nat} (h : Laid lo l m) (h' : Laid m l' hi)
    {a : Nat} (ha : a ≤ m) (b : Nat) :
    clipped (l ++ l') a b = clipped l a b ++ clipped (l ++ l') m b := by
  rw [clipped_append, clipped_append, h.clipped_apart (.inr (Nat.le_refl m)), h'.clipped_max a b,
    Nat.max_eq_left ha, List.nil_append]

/-- Windows inside one that looks the same in two lists of spans. -/
theorem clipped_of_window {l l' : List Span} {lo hi a b : Nat} (h : clipped l lo hi = l')
    (ha : lo ≤ a) (hb : b ≤ hi) : clipped l a b = clipped l' a b := by
  rw [← h, clipped_clipped, Nat.max_eq_right ha, Nat.min_eq_right hb]

namespace Lexicon

variable {front ahead front' entries more : List Boundary} {p q r r' : Nat}

/-- What is drawn up to a place does not depend on the boundaries from there on. -/
theorem clipped_drawing_append (htokens : lex.TokensLocal) (hascends : Ascends 0 (entries ++ more))
    (hland : IsLineStart text r ∨ ∃ b ∈ entries, b.offset = r) (hr : r ≤ r') (hr' : r' ≤ text.size)
    (hmore : ∀ b ∈ more, r ≤ b.offset) {a b : Nat} (hb : b ≤ r) :
    clipped (lex.drawing text (entries ++ more) 0 r') a b =
      clipped (lex.drawing text entries 0 r) a b := by
  have hclean : lex.CleanAt text (entries ++ more) r := by
    rcases hland with hline | ⟨x, hx, hat⟩
    · exact .inr (.inl hline)
    · exact .inl ⟨x, List.mem_append_left _ hx, hat⟩
  have hwindow := clipped_drawing htokens hascends (Nat.le_refl 0) (Nat.zero_le r) hr hr'
    (.inr (.inl isLineStart_zero)) (.inr hclean)
  rw [drawing_append hascends (Nat.zero_le r) (Nat.le_trans hr hr') hmore] at hwindow
  exact clipped_of_window hwindow (Nat.zero_le a) hb

end Lexicon

/-- What a table draws is what all boundaries of the text draw, up to where it holds. -/
theorem BoundaryTable.Holds.clipped_drawing {t : BoundaryTable} (h : t.Holds lex text)
    (hlawful : lex.Lawful) (htokens : lex.TokensLocal) (hlanded : t.Landed text) {x y : Nat}
    (hy : y ≤ t.reach text.size) :
    clipped (t.drawing lex text) x y =
      clipped (lex.drawing text (lex.boundaries text 0 .outside) 0 text.size) x y := by
  obtain ⟨more, hmore, hfar⟩ := h.exists_more hlawful
  have hascends : Ascends 0 (t.entries ++ more) := by
    rw [← hmore]
    exact .of_regular (Lexicon.regular_boundaries lex text 0 .outside)
  rw [hmore, BoundaryTable.drawing]
  cases hf : t.frontier with
  | none =>
      rw [BoundaryTable.reach_of_none hf] at hfar ⊢
      rw [Lexicon.drawing_append hascends (Nat.zero_le _) (Nat.le_refl _) hfar]
  | some f =>
      have hreach := h.reach_le
      rw [BoundaryTable.reach_of_some hf] at hfar hreach hy ⊢
      exact (Lexicon.clipped_drawing_append htokens hascends (hlanded f hf) hreach
        (Nat.le_refl _) hfar hy).symm

namespace Lexicon

variable {front ahead front' : List Boundary} {p q : Nat}

/-- A place from which two texts are drawn alike, moved: they look alike ahead, with the same
    boundaries and under the same tag. -/
structure Aligned (lex : Lexicon) (text : Array Char) (front ahead : List Boundary)
    (text' : Array Char) (front' : List Boundary) (p : Nat) (delta : Int) : Prop where
  looks     : LooksAhead text p text' delta
  ascends   : Ascends 0 (front ++ ahead)
  ascends'  : Ascends 0 (front' ++ ahead.map (·.shifted delta))
  front_le  : ∀ b ∈ front, b.offset ≤ p
  front_le' : ∀ b ∈ front', b.offset ≤ shift p delta
  from_on   : Ascends p ahead
  tag       : tagThrough none front p = tagThrough none front' (shift p delta)
  clean     : lex.CleanAt text (front ++ ahead) p
  clean'    : lex.CleanAt text' (front' ++ ahead.map (·.shifted delta)) (shift p delta)

/-- From there on the drawings show the same, moved. -/
theorem Aligned.clipped_drawing {delta : Int} (h : lex.Aligned text front ahead text' front' p delta)
    (htokens : lex.TokensLocal) (hpq : p ≤ q) (hq : q ≤ text.size) {a b : Nat} (ha : p ≤ a) :
    clipped (lex.drawing text' (front' ++ ahead.map (·.shifted delta)) 0 (shift q delta))
        (shift a delta) (shift b delta) =
      (clipped (lex.drawing text (front ++ ahead) 0 q) a b).map (·.shifted delta) := by
  have hsize' := h.looks.shift_le hq
  have hpq' : shift p delta ≤ shift q delta := shift_mono hpq
  have hahead' := h.from_on.shifted delta
  have hleft := Lexicon.clipped_drawing htokens h.ascends (Nat.zero_le p) hpq (Nat.le_refl q) hq
    h.clean (.inl rfl)
  have hright := Lexicon.clipped_drawing htokens h.ascends' (Nat.zero_le _) hpq' (Nat.le_refl _)
    hsize' h.clean' (.inl rfl)
  rw [drawing_of_append htokens h.front_le h.from_on hpq hq] at hleft
  rw [drawing_of_append htokens h.front_le' hahead' hpq' hsize', ← h.tag,
    drawn_shifted htokens h.from_on hpq hq h.looks.nonneg hsize' h.looks.before
      fun i hi _ => h.looks.behind i hi, ← hleft] at hright
  have hlaid := Lexicon.laid_drawing lex h.ascends (Nat.zero_le q) hq
  have hlaid' := Lexicon.laid_drawing lex h.ascends' (Nat.zero_le _) hsize'
  have hnonneg := h.looks.nonneg
  rw [hlaid'.clipped_min, hlaid.clipped_min, ← shift_min,
    clipped_of_window hright (shift_mono ha) (shift_mono (Nat.min_le_right b q)),
    clipped_shifted (by omega), clipped_clipped, Nat.max_eq_right ha,
    Nat.min_eq_right (Nat.min_le_right b q)]

end Lexicon

/-! ## Paint in step -/

/-- Where nothing is dirty the paint shows these spans, moved, from `lo` up to `hi`; what it shows
    past `hi` does not reach across. -/
def Painted (p : Paint) (dirty : ExtentSet) (spans : List Span) (lo hi : Nat) (delta : Int) :
    Prop :=
  ∀ a b, lo ≤ a → a ≤ b → a ≤ hi → (∀ x, shift a delta ≤ x → x < shift b delta → x ∉ dirty) →
    clipped p.spans (shift a delta) (shift b delta) =
      (clipped spans a b).map (·.shifted delta) ++
        clipped p.spans (shift hi delta) (shift b delta)

/-- The table that saved boundaries are from. -/
def Origin.table (og : Origin) : BoundaryTable :=
  { entries := og.front ++ og.tail, frontier := og.frontier }

/-- The paint shows what the earlier text showed from the first saved boundary on. -/
structure Origin.Shows (og : Origin) (lex : Lexicon) (p : Paint) (dirty : ExtentSet) : Prop where
  landed  : og.table.Landed og.text
  painted : ∀ b rest, og.tail = b :: rest →
    Painted p dirty (og.table.drawing lex og.text) b.offset (og.table.reach og.text.size) og.delta

/-- An analysis, a paint and a dirty set that agree about a text. -/
structure InStep (lex : Lexicon) (text : Array Char) (a : Analysis) (p : Paint)
    (dirty : ExtentSet) : Prop where
  table   : a.table.Holds lex text
  landed  : a.table.Landed text
  laid    : Laid 0 p.spans text.size
  upto    : dirty.Upto text.size
  painted : Painted p dirty (a.table.drawing lex text) 0 (a.table.reach text.size) 0
  /-- Boundaries are set aside only past the frontier, and they are from an earlier text. -/
  aside   : ∀ s, a.saved = some s →
    (∃ f, a.table.frontier = some f ∧ ∀ b ∈ s.entries, f.offset ≤ b.offset) ∧
      ∃ og : Origin, og.Fits lex text s ∧ og.Shows lex p dirty

section Painted

variable {p p' : Paint} {dirty dirty' : ExtentSet} {spans : List Span} {lo hi : Nat} {delta : Int}

theorem painted_zero : Painted p dirty spans lo hi 0 ↔
    ∀ a b, lo ≤ a → a ≤ b → a ≤ hi → (∀ x, a ≤ x → x < b → x ∉ dirty) →
      clipped p.spans a b = clipped spans a b ++ clipped p.spans hi b := by
  simp only [Painted, shift_zero, map_shifted_zero]

/-- More dirt promises less. -/
theorem Painted.mono (h : Painted p dirty spans lo hi delta) (hdirty : ∀ x ∈ dirty, x ∈ dirty')
    {lo' : Nat} (hlo : lo ≤ lo') : Painted p dirty' spans lo' hi delta :=
  fun a b ha hab hhi hclean =>
    h a b (Nat.le_trans hlo ha) hab hhi fun x hx hlt hin => hclean x hx hlt (hdirty x hin)

/-- With more offsets dirty the paint still shows what it did. -/
theorem Origin.Shows.mono {og : Origin} (h : og.Shows lex p dirty)
    (hdirty : ∀ x ∈ dirty, x ∈ dirty') : og.Shows lex p dirty' :=
  ⟨h.landed, fun b rest htail => (h.painted b rest htail).mono hdirty (Nat.le_refl _)⟩

/-- With nothing analyzed there is nothing to be wrong. -/
theorem inStep_fresh (lex : Lexicon) (hlaid : Laid 0 p.spans text.size)
    (hupto : dirty.Upto text.size) : InStep lex text .fresh p dirty where
  table := (Analysis.sound_fresh lex text).table
  landed := fun f hf => by
    obtain rfl := Option.some.inj hf
    exact .inl isLineStart_zero
  laid := hlaid
  upto := hupto
  painted := painted_zero.2 fun x y _ _ hx _ => by
    have hlaid := (Analysis.sound_fresh lex text).table.laid_drawing
    obtain rfl : x = 0 := Nat.le_zero.1 hx
    rw [hlaid.clipped_apart (.inr (Nat.le_refl 0))]
    rfl
  aside := fun s hs => absurd hs.symm (Option.some_ne_none s)

/-- **Two painted stretches make one**, when what lies between them is dirty. -/
theorem Painted.join (htokens : lex.TokensLocal) {entries more : List Boundary} {r m r' : Nat}
    (hascends : Ascends 0 (entries ++ more))
    (hland : IsLineStart text r ∨ ∃ b ∈ entries, b.offset = r) (hr : r ≤ m) (hm : m ≤ r')
    (hr' : r' ≤ text.size) (hmore : ∀ b ∈ more, r ≤ b.offset)
    (hat : m = r' ∨ ∃ b ∈ entries ++ more, b.offset = m)
    (h : Painted p dirty (lex.drawing text entries 0 r) 0 r 0)
    (hfrom : Painted p dirty (lex.drawing text (entries ++ more) 0 r') m r' 0)
    (hdirty : ∀ x ∈ dirty, x ∈ dirty') (hnew : ∀ x, r ≤ x → x < m → x ∈ dirty') :
    Painted p dirty' (lex.drawing text (entries ++ more) 0 r') 0 r' 0 := by
  rw [painted_zero] at h hfrom ⊢
  intro a b _ hab ha hclean
  have hrr' := Nat.le_trans hr hm
  have hold : ∀ x, a ≤ x → x < b → x ∉ dirty := fun x hx hlt hin => hclean x hx hlt (hdirty x hin)
  by_cases hbr : b ≤ r
  · -- the window lies in the first stretch
    have hnone : clipped p.spans r b = [] := clipped_of_le hbr
    have hnone' : clipped p.spans r' b = [] := clipped_of_le (by omega)
    rw [h a b (Nat.zero_le a) hab (by omega) hold, hnone, hnone',
      Lexicon.clipped_drawing_append htokens hascends hland hrr' hr' hmore hbr]
  · by_cases ham : m ≤ a
    · exact hfrom a b ham hab ha hold
    · rcases Nat.eq_or_lt_of_le hr with rfl | hlt
      · -- the window reaches across the place where the two meet
        have hentries : lex.drawing text (entries ++ more) 0 r = lex.drawing text entries 0 r :=
          Lexicon.drawing_append hascends (Nat.zero_le r) (Nat.le_trans hrr' hr') hmore
        have hsplit := Lexicon.drawing_split htokens hascends (Nat.zero_le r) hrr' hr'
          (hat.imp id .inl)
        have hlaid := Lexicon.laid_drawing lex hascends (Nat.zero_le r) (Nat.le_trans hrr' hr')
        have hacross := clipped_across hlaid (Lexicon.laid_drawing lex hascends hrr' hr')
          (a := a) (by omega) b
        rw [h a b (Nat.zero_le a) hab (by omega) hold,
          hfrom r b (Nat.le_refl r) (by omega) hrr' fun x hx hlt => hold x (by omega) hlt,
          hsplit, hacross, hentries, List.append_assoc]
      · rcases Nat.eq_or_lt_of_le hab with rfl | hlt'
        · have hnone' : clipped p.spans r' a = [] := clipped_of_le ha
          rw [clipped_of_le (Nat.le_refl a), clipped_of_le (Nat.le_refl a), hnone']
          rfl
        · -- the window would hold something that is new
          exact absurd (hnew (max a r) (by omega) (by omega)) (hclean (max a r) (by omega) (by omega))

/-- A table that has grown shows as much as before, when what is new is dirty. -/
theorem Painted.extend (htokens : lex.TokensLocal) {entries more : List Boundary} {r r' : Nat}
    (hascends : Ascends 0 (entries ++ more))
    (hland : IsLineStart text r ∨ ∃ b ∈ entries, b.offset = r) (hr : r ≤ r')
    (hr' : r' ≤ text.size) (hmore : ∀ b ∈ more, r ≤ b.offset)
    (h : Painted p dirty (lex.drawing text entries 0 r) 0 r 0)
    (hdirty : ∀ x ∈ dirty, x ∈ dirty') (hnew : ∀ x, r ≤ x → x < r' → x ∈ dirty') :
    Painted p dirty' (lex.drawing text (entries ++ more) 0 r') 0 r' 0 := by
  refine Painted.join htokens hascends hland hr (Nat.le_refl r') hr' hmore (.inl rfl) h ?_ hdirty hnew
  rw [painted_zero]
  intro a b ha hab hhi _
  obtain rfl : a = r' := Nat.le_antisymm hhi ha
  have hlaid := Lexicon.laid_drawing lex hascends (Nat.zero_le a) hr'
  rw [hlaid.clipped_apart (.inr (Nat.le_refl a)), List.nil_append]

end Painted

/-! ## Taking back what is set aside -/

theorem Ascends.le_of_append {front rest : List Boundary} {x : Boundary} {p : Nat}
    (h : Ascends p (front ++ x :: rest)) : ∀ b ∈ front, b.offset ≤ x.offset := by
  induction front generalizing p with
  | nil => exact fun b hb => absurd hb List.not_mem_nil
  | cons y front ih =>
      intro b hb
      rcases List.mem_cons.1 hb with rfl | hb
      · exact Ascends.le h.2 (List.mem_append_right front List.mem_cons_self)
      · exact ih h.2 b hb

/-- Up to a boundary, that boundary governs. -/
theorem Ascends.upto {front rest : List Boundary} {x : Boundary} {p : Nat}
    (h : Ascends p (front ++ x :: rest)) :
    (∀ b ∈ front ++ [x], b.offset ≤ x.offset) ∧
      ∀ tag, tagThrough tag (front ++ [x]) x.offset = x.tag := by
  have hfront := h.le_of_append
  refine ⟨?_, ?_⟩
  · intro b hb
    rcases List.mem_append.1 hb with hb | hb
    · exact hfront b hb
    · obtain rfl := List.mem_singleton.1 hb
      exact Nat.le_refl _
  · intro tag
    rw [tagThrough_append hfront, tagThrough_cons_of_le (Nat.le_refl _)]
    rfl

/-- Every place past the first one that looks the same comes from somewhere. -/
theorem LooksAhead.exists_shift {p i : Nat} {delta : Int} (h : LooksAhead text p text' delta)
    (hi : shift p delta ≤ i) : ∃ j, p ≤ j ∧ shift j delta = i := by
  have hnonneg := h.nonneg
  have hcast := shift_cast hnonneg
  refine ⟨((i : Int) - delta).toNat, by omega, ?_⟩
  show ((((i : Int) - delta).toNat : Int) + delta).toNat = i
  omega

/-- Where two texts are drawn alike, paint that shows the one, moved, shows the other. -/
theorem Painted.settle {front ahead front' : List Boundary} {lo q : Nat} {delta : Int} {p : Paint}
    {dirty : ExtentSet} (h : Painted p dirty (lex.drawing text (front ++ ahead) 0 q) lo q delta)
    (haligned : lex.Aligned text front ahead text' front' lo delta) (htokens : lex.TokensLocal)
    (hle : lo ≤ q) (hq : q ≤ text.size) :
    Painted p dirty
      (lex.drawing text' (front' ++ ahead.map (·.shifted delta)) 0 (shift q delta))
      (shift lo delta) (shift q delta) 0 := by
  have hlooks := haligned.looks
  have hnonneg := hlooks.nonneg
  have horder : ∀ {i j : Nat}, lo ≤ j → shift i delta ≤ shift j delta → i ≤ j := by
    intro i j hj hle
    refine Nat.le_of_not_lt ?_
    intro hlt
    have : ((i : Int) + delta).toNat ≤ ((j : Int) + delta).toNat := hle
    omega
  rw [painted_zero]
  intro a b ha hab hhi hclean
  obtain ⟨a, ha', rfl⟩ := hlooks.exists_shift ha
  obtain ⟨b, hb', rfl⟩ := hlooks.exists_shift (Nat.le_trans ha hab)
  rw [h a b ha' (horder hb' hab) (horder hle hhi) hclean,
    haligned.clipped_drawing htokens hle hq ha']

namespace Origin

variable {og : Origin} {l₁ l₂ : List Boundary} {x : Boundary} {p : Paint} {dirty : ExtentSet}

/-- To count saved boundaries off is to know the same table. -/
theorem table_of_append (htail : og.tail = l₁ ++ l₂) :
    Origin.table { og with front := og.front ++ l₁, tail := l₂ } = og.table := by
  show BoundaryTable.mk (og.front ++ l₁ ++ l₂) og.frontier = ⟨og.front ++ og.tail, og.frontier⟩
  rw [htail, List.append_assoc]

/-- Boundaries of the earlier text are in order. -/
theorem Fits.ascends {s : SavedTail} (h : og.Fits lex text s) (htail : og.tail = l₁ ++ x :: l₂) :
    Ascends 0 (og.front ++ l₁ ++ x :: l₂) := by
  have := BoundaryTable.Holds.ascends h.holds
  rwa [htail, ← List.append_assoc] at this

/-- What is saved is in order. -/
theorem Fits.ascends_entries {s : SavedTail} (h : og.Fits lex text s) : Ascends 0 s.entries := by
  have hall := (BoundaryTable.Holds.ascends h.holds).shifted og.delta
  rw [List.map_append] at hall
  rw [h.entries]
  exact hall.of_append.mono (Nat.zero_le _)

/-- What is painted from the first saved boundary on is painted from any later one on. -/
theorem Fits.painted {s : SavedTail} (h : og.Fits lex text s) (hshows : og.Shows lex p dirty)
    (htail : og.tail = l₁ ++ x :: l₂) :
    Painted p dirty (og.table.drawing lex og.text) x.offset (og.table.reach og.text.size)
      og.delta := by
  cases l₁ with
  | nil => exact hshows.painted x l₂ htail
  | cons y l₁ =>
      refine (hshows.painted y (l₁ ++ x :: l₂) htail).mono (fun _ hx => hx) ?_
      have hascends := h.ascends htail
      rw [List.append_assoc] at hascends
      exact (hascends.of_append.2).le (List.mem_append_right l₁ List.mem_cons_self)

theorem Fits.shows_rest {s : SavedTail} (h : og.Fits lex text s) (hshows : og.Shows lex p dirty)
    (htail : og.tail = l₁ ++ l₂) :
    Origin.Shows { og with front := og.front ++ l₁, tail := l₂ } lex p dirty where
  landed := by
    rw [table_of_append htail]
    exact hshows.landed
  painted := by
    rintro b rest rfl
    rw [table_of_append htail]
    exact h.painted hshows htail

/-- Where a table is met again, it reaches as far as the table that it was set aside from. -/
theorem Fits.reach_eq {s : SavedTail} (h : og.Fits lex text s)
    (hlooks : LooksAhead og.text x.offset text og.delta) (entries : List Boundary) :
    BoundaryTable.reach { entries, frontier := s.frontier } text.size =
      shift (og.table.reach og.text.size) og.delta := by
  have hfrontier := h.frontier
  cases hf : og.frontier with
  | none =>
      rw [hf, Option.map_none] at hfrontier
      rw [BoundaryTable.reach_of_none hfrontier, BoundaryTable.reach_of_none hf]
      have := hlooks.size_eq
      show text.size = ((og.text.size : Int) + og.delta).toNat
      omega
  | some f =>
      rw [hf, Option.map_some] at hfrontier
      rw [BoundaryTable.reach_of_some hfrontier, BoundaryTable.reach_of_some hf]

/-- The frontier of what is met again has landed as well. -/
theorem Fits.landed {s : SavedTail} (h : og.Fits lex text s) (hshows : og.Shows lex p dirty)
    (htail : og.tail = l₁ ++ x :: l₂) (front' : List Boundary) :
    BoundaryTable.Landed
      { entries := front' ++ (x :: l₂).map (·.shifted og.delta), frontier := s.frontier } text := by
  intro f' hf'
  have hf' : s.frontier = some f' := hf'
  rw [h.frontier] at hf'
  obtain ⟨f, hf, rfl⟩ := Option.map_eq_some_iff.1 hf'
  have hlooks := h.looksAhead htail
  have hascends := h.ascends htail
  have hle : x.offset ≤ f.offset := by
    have := BoundaryTable.Holds.le_reach h.holds (b := x) (by simp [htail])
    rwa [BoundaryTable.reach_of_some hf] at this
  rcases hshows.landed f hf with hline | ⟨b, hb, hat⟩
  · exact .inl ((hlooks.charBefore_eq hle).trans hline)
  · have hb : b ∈ og.front ++ og.tail := hb
    rw [htail, ← List.append_assoc] at hb
    rcases List.mem_append.1 hb with hb | hb
    · -- it lies before the boundary that is met, so it lies there
      have := hascends.le_of_append b hb
      refine .inr ⟨x.shifted og.delta, List.mem_append_right _ List.mem_cons_self, ?_⟩
      show shift x.offset og.delta = shift f.offset og.delta
      rw [Nat.le_antisymm hle (hat ▸ this)]
    · refine .inr ⟨b.shifted og.delta, List.mem_append_right _ (List.mem_map_of_mem hb), ?_⟩
      exact congrArg (shift · og.delta) hat

/-- What is taken back begins with the boundary that is met. -/
theorem Fits.le_of_met {s : SavedTail} (h : og.Fits lex text s) (htail : og.tail = l₁ ++ x :: l₂)
    {b : Boundary} (hb : b ∈ (x :: l₂).map (·.shifted og.delta)) :
    shift x.offset og.delta ≤ b.offset := by
  obtain ⟨y, hy, rfl⟩ := List.mem_map.1 hb
  exact shift_mono ((h.ascends htail).of_append.2.le_head hy)

/-- The earlier text and the present one are aligned at the boundary that is met. -/
theorem Fits.aligned {s : SavedTail} (h : og.Fits lex text s) (htail : og.tail = l₁ ++ x :: l₂)
    {front' : List Boundary}
    (hascends' : Ascends 0 (front' ++ (x :: l₂).map (·.shifted og.delta))) :
    lex.Aligned og.text (og.front ++ l₁ ++ [x]) l₂ text (front' ++ [x.shifted og.delta]) x.offset
      og.delta := by
  have hascends := h.ascends htail
  have hentries : og.front ++ l₁ ++ x :: l₂ = og.front ++ l₁ ++ [x] ++ l₂ := by simp
  have hentries' : front' ++ (x :: l₂).map (·.shifted og.delta) =
      front' ++ [x.shifted og.delta] ++ l₂.map (·.shifted og.delta) := by simp
  obtain ⟨hfront, htag⟩ := hascends.upto
  have hupto' : _ ∧ ∀ tag, tagThrough tag (front' ++ [x.shifted og.delta])
      (shift x.offset og.delta) = x.tag := hascends'.upto
  obtain ⟨hfront', htag'⟩ := hupto'
  exact
    { looks := h.looksAhead htail
      ascends := hentries ▸ hascends
      ascends' := hentries' ▸ hascends'
      front_le := hfront
      front_le' := hfront'
      from_on := hascends.of_append.2
      tag := (htag none).trans (htag' none).symm
      clean := .inl ⟨x, by simp, rfl⟩
      clean' := .inl ⟨x.shifted og.delta, by simp, rfl⟩ }

/-- From the boundary that is met on, the paint shows what the table says. -/
theorem Fits.painted_from {s : SavedTail} (h : og.Fits lex text s) (hshows : og.Shows lex p dirty)
    (htokens : lex.TokensLocal) (htail : og.tail = l₁ ++ x :: l₂) {front' : List Boundary}
    (hascends' : Ascends 0 (front' ++ (x :: l₂).map (·.shifted og.delta))) :
    Painted p dirty
      (lex.drawing text (front' ++ (x :: l₂).map (·.shifted og.delta)) 0
        (shift (og.table.reach og.text.size) og.delta))
      (shift x.offset og.delta) (shift (og.table.reach og.text.size) og.delta) 0 := by
  have hascends := h.ascends htail
  have hpainted := h.painted hshows htail
  have hle : x.offset ≤ og.table.reach og.text.size :=
    BoundaryTable.Holds.le_reach h.holds (b := x) (by simp [htail])
  have htable : og.table.drawing lex og.text =
      lex.drawing og.text (og.front ++ l₁ ++ [x] ++ l₂) 0 (og.table.reach og.text.size) := by
    show lex.drawing og.text (og.front ++ og.tail) 0 _ = _
    rw [htail]
    simp
  have hentries' : front' ++ (x :: l₂).map (·.shifted og.delta) =
      front' ++ [x.shifted og.delta] ++ l₂.map (·.shifted og.delta) := by simp
  have haligned := h.aligned htail hascends'
  rw [htable] at hpainted
  rw [hentries']
  exact hpainted.settle haligned htokens hle (BoundaryTable.Holds.reach_le h.holds)

end Origin

/-! ## Batches -/

namespace InStep

variable {doc : Document} {a a' : Analysis} {p : Paint} {dirty dirty' : ExtentSet} {f : Frontier}
  {report : BuildReport}

theorem sound (h : InStep lex text a p dirty) (hlocal : lex.LineLocal)
    (hstops : lex.StopsUnescaped ∨ a.saved = none) : a.Sound lex text :=
  ⟨h.table, fun s hs => by
    rcases hstops with hstops | hnone
    · obtain ⟨-, og, hfits, -⟩ := h.aside s hs
      exact hfits.resumes hlocal hstops
    · exact absurd (hnone.symm.trans hs) (Option.some_ne_none s).symm⟩

/-- What a scan adds to the table is painted over, or dirty. -/
theorem grown (h : InStep lex text a p dirty) (htokens : lex.TokensLocal)
    (hf : a.table.frontier = some f) {more : List Boundary} {r' : Nat}
    (hascends : Ascends 0 (a.table.entries ++ more)) (hr : f.offset ≤ r') (hr' : r' ≤ text.size)
    (hmore : ∀ b ∈ more, f.offset ≤ b.offset) (hdirty : ∀ x ∈ dirty, x ∈ dirty')
    (hnew : ∀ x, f.offset ≤ x → x < r' → x ∈ dirty') :
    Painted p dirty' (lex.drawing text (a.table.entries ++ more) 0 r') 0 r' 0 := by
  have hpainted := h.painted
  rw [BoundaryTable.drawing, BoundaryTable.reach_of_some hf] at hpainted
  exact hpainted.extend htokens hascends (h.landed f hf) hr hr' hmore hdirty hnew

/-- With the scan at the end of the text, nothing is set aside and all that is new is dirty. -/
theorem finished (h : InStep lex text a p dirty) (htokens : lex.TokensLocal)
    (hf : a.table.frontier = some f) {more : List Boundary}
    (htable : BoundaryTable.Holds { entries := a.table.entries ++ more, frontier := none } lex text)
    (hmore : ∀ b ∈ more, f.offset ≤ b.offset) (hdirty : ∀ x ∈ dirty, x ∈ dirty')
    (hnew : ∀ x, f.offset ≤ x → x < text.size → x ∈ dirty') (hupto : dirty'.Upto text.size) :
    InStep lex text
      { table := { entries := a.table.entries ++ more, frontier := none }, saved := none } p
      dirty' where
  table := htable
  landed := fun f' hf' => absurd hf'.symm (Option.some_ne_none f')
  laid := h.laid
  upto := hupto
  painted := by
    have hstart := h.table.frontier_le hf
    exact h.grown htokens hf htable.ascends hstart (Nat.le_refl _) hmore hdirty hnew
  aside := fun s hs => absurd hs.symm (Option.some_ne_none s)

/-- What is left of the boundaries set aside is from the same earlier text, and all of it lies past
the place where its first boundary does. -/
theorem aside_rest (h : InStep lex text a p dirty) (hdirty : ∀ x ∈ dirty, x ∈ dirty')
    {saved : Option SavedTail} {stop : Nat} (hremains : Remains a.saved saved)
    (hrest : ∀ s, saved = some s → ∃ b rest, s.entries = b :: rest ∧ stop ≤ b.offset)
    {s' : SavedTail} (hs' : saved = some s') :
    (∀ b ∈ s'.entries, stop ≤ b.offset) ∧
      ∃ og : Origin, og.Fits lex text s' ∧ og.Shows lex p dirty' := by
  obtain ⟨s, front, hs, hentries, hfrontier⟩ := hremains s' hs'
  obtain ⟨-, og, hfits, hshows⟩ := h.aside s hs
  obtain ⟨l₁, l₂, htail, hfits'⟩ := hfits.remains hentries hfrontier
  obtain ⟨b, rest, hb, hle⟩ := hrest s' hs'
  refine ⟨?_, _, hfits', (hfits.shows_rest hshows htail).mono hdirty⟩
  intro b' hb'
  have hlast := hfits'.ascends_entries
  rw [hb] at hb' hlast
  rcases List.mem_cons.1 hb' with rfl | hb'
  · exact hle
  · exact Nat.le_trans hle (hlast.2.le hb')

/-- A scan that meets a boundary of the earlier text keeps the paint in step: up to there what is
new is dirty, and from there on the paint still shows the earlier table. -/
theorem rejoined (h : InStep lex text a p dirty) (htokens : lex.TokensLocal)
    (hf : a.table.frontier = some f) {og : Origin} {s : SavedTail} (hfits : og.Fits lex text s)
    (hshows : og.Shows lex p dirty) {l₁ l₂ bs : List Boundary} {x : Boundary}
    (htail : og.tail = l₁ ++ x :: l₂) (hle : f.offset ≤ shift x.offset og.delta)
    (hbs : ∀ b ∈ bs, f.offset ≤ b.offset)
    (htable : BoundaryTable.Holds
      { entries := a.table.entries ++ bs ++ (x :: l₂).map (·.shifted og.delta)
        frontier := s.frontier } lex text)
    (hdirty : ∀ x ∈ dirty, x ∈ dirty')
    (hnew : ∀ i, f.offset ≤ i → i < shift x.offset og.delta → i ∈ dirty')
    (hupto : dirty'.Upto text.size) :
    InStep lex text
      { table :=
          { entries := a.table.entries ++ bs ++ (x :: l₂).map (·.shifted og.delta)
            frontier := s.frontier }
        saved := none } p dirty' where
  table := htable
  landed := hfits.landed hshows htail (a.table.entries ++ bs)
  laid := h.laid
  upto := hupto
  painted := by
    have hascends := htable.ascends
    have hto : shift x.offset og.delta ≤ shift (og.table.reach og.text.size) og.delta :=
      shift_mono (BoundaryTable.Holds.le_reach hfits.holds (b := x) (by simp [htail]))
    have hreach := hfits.reach_eq (hfits.looksAhead htail)
      (a.table.entries ++ bs ++ (x :: l₂).map (·.shifted og.delta))
    have hreach' := htable.reach_le
    rw [hreach] at hreach'
    have hfrom := hfits.painted_from hshows htokens htail hascends
    have hpainted := h.painted
    rw [BoundaryTable.drawing, BoundaryTable.reach_of_some hf] at hpainted
    have hmore : ∀ b ∈ bs ++ (x :: l₂).map (·.shifted og.delta), f.offset ≤ b.offset := by
      intro b hb
      rcases List.mem_append.1 hb with hb | hb
      · exact hbs b hb
      · exact Nat.le_trans hle (hfits.le_of_met htail hb)
    show Painted p dirty' (lex.drawing text
      (a.table.entries ++ bs ++ (x :: l₂).map (·.shifted og.delta)) 0 _) 0 _ 0
    rw [hreach]
    rw [List.append_assoc] at hascends hfrom ⊢
    exact hpainted.join htokens hascends (h.landed f hf) hle hto hreach' hmore
      (.inr ⟨x.shifted og.delta, by simp, rfl⟩) hfrom hdirty hnew
  aside := fun s' hs' => absurd hs'.symm (Option.some_ne_none s')

/-- **A batch keeps the paint in step**, as what it has scanned is dirty. -/
theorem batch (h : InStep lex doc.chars a p dirty) (hlawful : lex.Lawful)
    (htokens : lex.TokensLocal) (hsound : a.Sound lex doc.chars) (hf : a.table.frontier = some f)
    (hbatch : Batch lex doc a f a' report) (hdirty : ∀ x ∈ dirty, x ∈ dirty')
    (hnew : ∀ x ∈ report.range, x ∈ dirty') (hupto : dirty'.Upto doc.chars.size) :
    InStep lex doc.chars a' p dirty' := by
  have htable' := (hsound.batch hlawful hf hbatch).table
  cases hbatch with
  | idle hregions =>
      have hnone : ∀ b ∈ ([] : List Boundary), f.offset ≤ b.offset :=
        fun b hb => absurd hb List.not_mem_nil
      have hfinished := h.finished htokens hf (by rw [List.append_nil]; exact htable') hnone hdirty
        (fun x hx hlt => hnew x ⟨hx, doc.length_eq ▸ hlt⟩) hupto
      rwa [List.append_nil] at hfinished
  | @goesOn bs stop state saved hline hlt hstop hscan hbefore hremains hrest =>
      exact
        { table := htable'
          landed := fun f' hf' => by
            obtain rfl := Option.some.inj hf'
            exact .inl hline
          laid := h.laid
          upto := hupto
          painted := h.grown htokens hf htable'.ascends (Nat.le_of_lt hlt)
            (doc.length_eq ▸ Nat.le_of_lt hstop)
            (fun b hb => (hscan.le_offset hb).1) hdirty fun x hx hlt => hnew x ⟨hx, hlt⟩
          aside := fun s' hs' =>
            have ⟨hpast, hog⟩ := h.aside_rest hdirty hremains hrest hs'
            ⟨⟨_, rfl, hpast⟩, hog⟩ }
  | @ends bs state hscan =>
      exact h.finished htokens hf htable' (fun b hb => (hscan.le_offset hb).1) hdirty
        (fun x hx hlt => hnew x ⟨hx, doc.length_eq ▸ hlt⟩) hupto
  | @meets bs o at' d s front behind hscan ho hd hs hentries =>
      obtain ⟨-, og, hfits, hshows⟩ := h.aside s hs
      obtain ⟨l₁, x, l₂, htail, hx, rfl⟩ := hfits.split_entries hentries
      have hmark : shift x.offset og.delta = (Lexicon.mark o d).offset := congrArg Boundary.offset hx
      -- the mark that was scanned is the boundary that was set aside, so it counts as what is met
      have hall : a.table.entries ++ (bs ++ [Lexicon.mark o d]) ++ l₂.map (·.shifted og.delta) =
          a.table.entries ++ bs ++ (x :: l₂).map (·.shifted og.delta) := by
        rw [List.map_cons, hx]
        simp
      rw [hall] at htable' ⊢
      refine h.rejoined htokens hf hfits hshows htail ?_ (fun b hb => (hscan.le_offset hb).1) htable'
        hdirty (fun i hi hlt => hnew i ⟨hi, ?_⟩) hupto
      · have := hscan.le
        have := Lexicon.le_mark o d
        omega
      · show i < max (Lexicon.mark o d).offset f.offset
        omega

end InStep

end Highlighter
