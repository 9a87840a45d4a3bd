import Highlighter.Proofs.Passes

/-! # Restriction — a part renders as it does in the whole

    Rendering a part of the text may not change what the part shows.  A part that begins
    and ends at seams does not: no span of the whole reaches over a seam
    (`drawing_not_straddles`), and the spans between two seams are those that a rendering
    of the part alone finds (`drawing_within`).

    Lines need not end at seams, for a region may go on past them, so a part is widened
    to whole regions before it is rendered. -/

namespace Highlighter

variable {lex : Lexicon} {text : Array Char} {entries : List Boundary} {l : List Span}
  {lo hi p q u v a : Nat}

/-- The span lies in the extent. -/
def Span.within (s : Span) (e : Extent) : Bool := e.start ≤ s.start && s.stop ≤ e.stop

/-- The span reaches over the offset. -/
def Span.Straddles (s : Span) (p : Nat) : Prop := s.start < p ∧ p < s.stop

/-! ## Spans before, inside and behind a part -/

/-- Spans that lie in a window are all kept. -/
theorem Laid.filter_within (h : Laid lo l hi) (hu : u ≤ lo) (hv : hi ≤ v) :
    l.filter (·.within ⟨u, v⟩) = l := by
  rw [List.filter_eq_self]
  intro s hs
  have hbounds := h.bounds hs
  rw [Span.within, Bool.and_eq_true, decide_eq_true_eq, decide_eq_true_eq]
  exact ⟨Nat.le_trans hu hbounds.1, Nat.le_trans hbounds.2 hv⟩

/-- Spans that lie beside a window are all left out. -/
theorem Laid.filter_within_apart (h : Laid lo l hi) (hapart : hi ≤ u ∨ v ≤ lo) :
    l.filter (·.within ⟨u, v⟩) = [] := by
  rw [List.filter_eq_nil_iff]
  intro s hs
  have hbounds := h.bounds hs
  have hlt := h.lt hs
  rw [Span.within, Bool.and_eq_true, decide_eq_true_eq, decide_eq_true_eq]
  rintro ⟨hstart, hstop⟩
  simp only at hstart hstop
  omega

/-- Spans that lie on one side of an offset do not reach over it. -/
theorem Laid.not_straddles (h : Laid lo l hi) (hapart : a ≤ lo ∨ hi ≤ a) :
    ∀ s ∈ l, ¬s.Straddles a := by
  rintro s hs ⟨hstart, hstop⟩
  have hbounds := h.bounds hs
  omega

namespace Lexicon

/-- No span reaches over a seam. -/
theorem drawing_not_straddles (htokens : lex.TokensLocal) (h : Ascends 0 entries) (hpa : p ≤ a)
    (haq : a ≤ q) (hq : q ≤ text.size) (hseam : a = q ∨ lex.SeamAt text entries a) :
    ∀ s ∈ lex.drawing text entries p q, ¬s.Straddles a := by
  rw [drawing_split htokens h hpa haq hq hseam]
  intro s hs
  rcases List.mem_append.1 hs with hs | hs
  · exact (laid_drawing lex h hpa (Nat.le_trans haq hq)).not_straddles (.inr (Nat.le_refl a)) s hs
  · exact (laid_drawing lex h haq hq).not_straddles (.inl (Nat.le_refl a)) s hs

/-- **What is drawn between two seams** is what lies between them in a drawing of more. -/
theorem drawing_within (htokens : lex.TokensLocal) (h : Ascends 0 entries) (hpu : p ≤ u)
    (huv : u ≤ v) (hvq : v ≤ q) (hq : q ≤ text.size) (hu : lex.SeamAt text entries u)
    (hv : v = q ∨ lex.SeamAt text entries v) :
    (lex.drawing text entries p q).filter (·.within ⟨u, v⟩) = lex.drawing text entries u v := by
  have huq := Nat.le_trans huv hvq
  have hbefore := laid_drawing lex h hpu (Nat.le_trans huq hq)
  have hinside := laid_drawing lex h huv (Nat.le_trans hvq hq)
  have hbehind := laid_drawing lex h hvq hq
  rw [drawing_split htokens h hpu huq hq (.inr hu), drawing_split htokens h huv hvq hq hv,
    List.filter_append, List.filter_append, hbefore.filter_within_apart (.inl (Nat.le_refl u)),
    hinside.filter_within (Nat.le_refl u) (Nat.le_refl v),
    hbehind.filter_within_apart (.inr (Nat.le_refl v)), List.nil_append, List.append_nil]

end Lexicon

/-! ## Whole lines, widened to whole regions -/

/-- **Rendering a part.**  Some whole lines, widened to whole regions, hold the lines; no span of the
    whole text reaches over an end of the part; and the part renders to the spans of the whole
    text that lie in it. -/
theorem render_widened (htokens : lex.TokensLocal) (doc : Document) (h : Ascends 0 entries)
    (hinside : ∀ b ∈ entries, b.offset ≤ doc.length) {lines covered : Extent}
    (hlines : lines.start < lines.stop) (hstop : lines.stop ≤ doc.length)
    (hline : IsLineStart doc.chars lines.start)
    (hline' : lines.stop = doc.length ∨ IsLineStart doc.chars lines.stop)
    (hcovered : widenToRegions entries lines doc.length = covered) :
    (covered.start ≤ lines.start ∧ lines.stop ≤ covered.stop ∧ covered.stop ≤ doc.length) ∧
      (∀ s ∈ render lex doc entries ⟨0, doc.length⟩,
        ¬s.Straddles covered.start ∧ ¬s.Straddles covered.stop) ∧
      render lex doc entries covered =
        (render lex doc entries ⟨0, doc.length⟩).filter (·.within covered) := by
  obtain ⟨u, v, hwiden, hu, hv, hreach, hseam, hseam'⟩ :=
    widenToRegions_spec lex h hlines hstop hinside hline hline'
  obtain rfl : covered = ⟨u, v⟩ := hcovered.symm.trans hwiden
  have huv : u ≤ v := Nat.le_trans hu (Nat.le_trans (Nat.le_of_lt hlines) hv)
  have hul : u ≤ doc.length := Nat.le_trans huv hreach
  have hall : doc.length ≤ doc.chars.size := Nat.le_of_eq doc.length_eq
  refine ⟨⟨hu, hv, hreach⟩, ?_, ?_⟩
  · rw [render_eq htokens doc h (Nat.zero_le _) (Nat.le_refl _)]
    intro s hs
    constructor
    · exact Lexicon.drawing_not_straddles htokens h (Nat.zero_le u) hul hall (.inr hseam) s hs
    · exact Lexicon.drawing_not_straddles htokens h (Nat.zero_le v) hreach hall hseam' s hs
  · rw [render_eq htokens doc h huv hreach, render_eq htokens doc h (Nat.zero_le _) (Nat.le_refl _)]
    exact (Lexicon.drawing_within htokens h (Nat.zero_le u) huv hreach hall hseam hseam').symm

/-! ## A region over two lines -/

/-- Some letters. -/
def Regex.word : Regex := ⟨#[.chars ⟨[(97, 122)]⟩, .fork [-1, 1], .accept]⟩

/-- Words are tokens, and text in parentheses is a region. -/
def Lexicon.words : Lexicon :=
  { regions := [Grammar.listDef], tokens := [⟨"word", Regex.word, "word"⟩] }

theorem Lexicon.tokensLocal_words : Lexicon.words.TokensLocal := by
  intro d hd
  obtain rfl := List.mem_singleton.1 hd
  exact Regex.lineLocal_of_staysInLine (by decide +kernel)

/-- A region that opens on the first line and closes on the second. -/
def Document.twoLines : Document := .ofString "a(b\nc)\nde\n"

/-- Its boundaries. -/
def Document.twoLinesEntries : List Boundary := [.opening 1 0, .closing 6]

/-- The second line does not begin at a seam: to render it, the region is rendered from its start. -/
theorem render_widened_twoLines :
    widenToRegions Document.twoLinesEntries ⟨4, 7⟩ Document.twoLines.length = ⟨1, 7⟩ ∧
      (∀ s ∈ render .words .twoLines Document.twoLinesEntries ⟨0, Document.twoLines.length⟩,
        ¬s.Straddles 1 ∧ ¬s.Straddles 7) ∧
      render .words .twoLines Document.twoLinesEntries ⟨1, 7⟩ =
        (render .words .twoLines Document.twoLinesEntries ⟨0, Document.twoLines.length⟩).filter
          (·.within ⟨1, 7⟩) := by
  have hascends : Ascends 0 Document.twoLinesEntries := ⟨by decide, by decide, trivial⟩
  have hinside : ∀ b ∈ Document.twoLinesEntries, b.offset ≤ Document.twoLines.length := by decide
  have hline : IsLineStart Document.twoLines.chars 4 := by decide
  have hline' : IsLineStart Document.twoLines.chars 7 := by decide
  have hsize : 7 ≤ Document.twoLines.length := by decide
  have hwiden : widenToRegions Document.twoLinesEntries ⟨4, 7⟩ Document.twoLines.length = ⟨1, 7⟩ := by
    decide
  obtain ⟨-, hwhole, hpart⟩ := render_widened Lexicon.tokensLocal_words .twoLines hascends hinside
    (by decide) hsize hline (.inr hline') hwiden
  exact ⟨hwiden, hwhole, hpart⟩

end Highlighter
