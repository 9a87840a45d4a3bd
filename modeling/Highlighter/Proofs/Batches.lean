import Highlighter.Analysis
import Highlighter.Proofs.Lines
import Highlighter.Proofs.Scanning

/-! # Batches — what one call of `build` does

    A batch scans a slice that begins with the line of the frontier and ends one line past
    the batch.  From inside, a slice of whole lines looks like the text around it, so the
    scan of a slice is a piece of the scan of the text.  `Batch` lists all that a call can
    do: there is nothing to scan for, the scan comes to the line start at the end of the
    batch, it comes to the end of the text, or it meets a boundary set aside. -/

namespace Highlighter

namespace Document

/-- A slice has the chars of its extent. -/
theorem getElem?_slice (doc : Document) (e : Extent) (i : Nat) :
    (doc.slice e)[i]? = if e.start + i < e.stop then doc.chars[e.start + i]? else none := by
  rw [doc.slice_eq, Array.getElem?_extract]
  by_cases hin : e.start + i < e.stop
  · rw [if_pos hin]
    split
    · rfl
    · rename_i h
      exact (Array.getElem?_eq_none_iff.2 (by omega)).symm
  · rw [if_neg hin, if_neg (by omega)]

/-- A slice is as long as what the document has of its extent. -/
theorem size_slice (doc : Document) (e : Extent) :
    (doc.slice e).size = min e.stop doc.length - e.start := by
  rw [doc.slice_eq, Array.size_extract, doc.length_eq]

theorem size_slice_clampTo (doc : Document) (e : Extent) :
    (doc.slice (e.clampTo doc.length)).size = min e.stop doc.length - min e.start doc.length := by
  rw [size_slice]
  show min (min e.stop doc.length) doc.length - min e.start doc.length = _
  rw [Nat.min_eq_left (Nat.min_le_right _ _)]

/-- A slice that ends with the text ends where the text does. -/
theorem getElem?_slice_add (doc : Document) {base stop i : Nat}
    (h : base + i < stop ∨ stop = doc.length) :
    (doc.slice ⟨base, stop⟩)[i]? = doc.chars[base + i]? := by
  rw [getElem?_slice]
  show (if base + i < stop then doc.chars[base + i]? else none) = _
  split
  · rfl
  · have hlen : doc.length = doc.chars.size := doc.length_eq
    exact (Array.getElem?_eq_none_iff.2 (by omega)).symm

/-- A slice of whole lines looks like the text around it. -/
theorem alike_slice {lex : Lexicon} (hlocal : lex.LineLocal) (doc : Document) {base stop i : Nat}
    (hbase : IsLineStart doc.chars base) (hstop : doc.IsLineBreak stop) (hi : base ≤ i)
    (hlt : i < stop ∨ (i = stop ∧ stop = doc.length)) :
    lex.Alike (doc.slice ⟨base, stop⟩) (i - base) doc.chars i := by
  obtain ⟨hle, hbreak⟩ := hstop
  have hlen : doc.length = doc.chars.size := doc.length_eq
  have hsize : (doc.slice ⟨base, stop⟩).size = stop - base := by
    rw [size_slice]
    show min stop doc.length - base = stop - base
    omega
  have hbefore : charBefore (doc.slice ⟨base, stop⟩) 0 = charBefore doc.chars base := hbase.symm
  have hhides : lex.hides (doc.slice ⟨base, stop⟩) 0 = lex.hides doc.chars base := by
    rw [Lexicon.hides_zero, Lexicon.hides_of_isLineStart hlocal hbase (by omega)]
  have hin : 0 + (i - base) ≤ (doc.slice ⟨base, stop⟩).size := by
    rw [hsize]
    omega
  have hpos : base + (i - base) = i := by omega
  have hget : ∀ j, base + j < stop ∨ stop = doc.length →
      (doc.slice ⟨base, stop⟩)[0 + j]? = doc.chars[base + j]? := by
    intro j hj
    rw [Nat.zero_add, doc.getElem?_slice_add hj]
  have key : lex.Alike (doc.slice ⟨base, stop⟩) (0 + (i - base)) doc.chars (base + (i - base)) := by
    by_cases hfull : stop = doc.length
    · refine .of_agree (n := stop - base) hbefore hhides (fun j _ => hget j (.inr hfull)) ?_ hin
        (by omega) (by omega)
      refine .inl (Array.getElem?_eq_none_iff.2 ?_)
      rw [hsize]
      omega
    · have hlt' : i < stop := by omega
      have hline : IsLineStart doc.chars stop := hbreak.resolve_right hfull
      refine .of_agree (n := stop - 1 - base) hbefore hhides (fun j hj => hget j (.inl (by omega)))
        ?_ hin (by omega) (by omega)
      refine .inr ?_
      rw [hget _ (.inl (by omega))]
      have hadd : base + (stop - 1 - base) = stop - 1 := by omega
      rw [hadd]
      exact hline.getElem? (by omega) (by omega)
  rwa [Nat.zero_add, hpos] at key

end Document

namespace Lexicon

variable {lex : Lexicon} {text : Array Char}

/-- A step takes the first delimiter, after going over the positions before it. -/
theorem step_eq_some (hlawful : lex.Lawful) {p : Nat} {state : ScanState} {s : Step}
    (h : lex.step text p state = some s) :
    ∃ q d, q ≤ text.size ∧ lex.delimiterAt? text q state = some d ∧ s = stepOver q d ∧
      lex.Scans text p state [] q state := by
  rw [step_eq_firstFrom hlawful] at h
  obtain ⟨q, hpq, hq, hstep, hnone⟩ := firstFrom_eq_some h
  obtain ⟨d, hd, hs⟩ := Option.map_eq_some_iff.1 hstep
  refine ⟨q, d, hq, hd, hs.symm, .skips hpq (Nat.le_succ_of_le hq) ?_⟩
  intro i hi hlt
  exact Option.map_eq_none_iff.1 (hnone i hi hlt)

/-- A scan that takes no step has no delimiter ahead of it. -/
theorem step_eq_none (hlawful : lex.Lawful) {p : Nat} {state : ScanState}
    (h : lex.step text p state = none) :
    ∀ i, p ≤ i → i ≤ text.size → lex.delimiterAt? text i state = none := by
  intro i hi hle
  rw [step_eq_firstFrom hlawful] at h
  exact Option.map_eq_none_iff.1 (firstFrom_eq_none_iff.1 h i hi hle)

/-- No delimiter begins before the step. -/
theorem step_skips (hlawful : lex.Lawful) {p : Nat} {state : ScanState} {s : Step}
    (h : lex.step text p state = some s) :
    ∀ i, p ≤ i → i < s.textStart → lex.delimiterAt? text i state = none := by
  intro i hi hlt
  rw [step_eq_firstFrom hlawful] at h
  obtain ⟨q, -, -, hd, hnone⟩ := firstFrom_eq_some h
  obtain ⟨d, -, rfl⟩ := Option.map_eq_some_iff.1 hd
  rw [stepOver_textStart] at hlt
  exact Option.map_eq_none_iff.1 (hnone i hi hlt)

/-- Without regions there is nothing to step to. -/
theorem step_of_not_hasRegions (h : lex.hasRegions = false) (p : Nat) (state : ScanState) :
    lex.step text p state = none := by
  have hnil : lex.regions = [] := by
    have : (!lex.regions.isEmpty) = false := h
    simpa using this
  cases state with
  | outside =>
      have hnone : lex.findStart text p = none := by
        fun_induction findStart lex text p with
        | case1 => rfl
        | case2 p c hc m hm =>
            rw [hnil] at hm
            exact absurd hm (Option.some_ne_none m).symm
        | case3 p c hc hm ih => exact ih
      show (lex.findStart text p).map _ = none
      rw [hnone, Option.map_none]
  | inside tag =>
      have hregion : lex.region? tag = none := by
        show lex.regions[tag]? = none
        rw [hnil]
        rfl
      show ((lex.region? tag).bind _).map _ = none
      rw [hregion]
      rfl

/-- Without regions there are no boundaries. -/
theorem boundaries_of_not_hasRegions (h : lex.hasRegions = false) (p : Nat) (state : ScanState) :
    lex.boundaries text p state = [] := by
  rw [boundaries, scan_of_step_none (step_of_not_hasRegions h p state), List.map_nil]

end Lexicon

/-! ## What is set aside -/

/-- What is left of some saved boundaries: a rest of them, with the same frontier. -/
def Remains (saved saved' : Option SavedTail) : Prop :=
  ∀ s', saved' = some s' → ∃ s front, saved = some s ∧ s.entries = front ++ s'.entries ∧
    s.frontier = s'.frontier

theorem Remains.refl (saved : Option SavedTail) : Remains saved saved :=
  fun s' h => ⟨s', [], h, rfl, rfl⟩

/-- What remains of what remains is what remains. -/
theorem Remains.trans {saved saved' saved'' : Option SavedTail} (h : Remains saved saved')
    (h' : Remains saved' saved'') : Remains saved saved'' := by
  intro s'' hs''
  obtain ⟨s', front', hs', hentries', hfrontier'⟩ := h' s'' hs''
  obtain ⟨s, front, hs, hentries, hfrontier⟩ := h s' hs'
  refine ⟨s, front ++ front', hs, ?_, hfrontier.trans hfrontier'⟩
  rw [hentries, hentries', List.append_assoc]

theorem exists_append_dropWhile {α : Type} (f : α → Bool) (l : List α) :
    ∃ front, l = front ++ l.dropWhile f :=
  ⟨l.takeWhile f, List.takeWhile_append_dropWhile.symm⟩

/-- Of a saved tail the entries before an offset are dropped, and the first of those that are kept
    is not before it. -/
theorem SavedTail.discardBefore_eq_some {s s' : SavedTail} {o : Nat}
    (h : s.discardBefore o = some s') :
    (∃ front, s.entries = front ++ s'.entries) ∧ s.frontier = s'.frontier ∧
      ∃ b rest, s'.entries = b :: rest ∧ o ≤ b.offset := by
  rw [SavedTail.discardBefore] at h
  split at h
  · exact absurd h (Option.some_ne_none s').symm
  · rename_i hne
    obtain rfl := Option.some.inj h
    refine ⟨exists_append_dropWhile _ _, rfl, ?_⟩
    cases hleft : s.entries.dropWhile fun b => b.offset < o with
    | nil => exact absurd (by rw [hleft]; rfl) hne
    | cons b rest =>
        refine ⟨b, rest, rfl, ?_⟩
        have hhead := List.head_dropWhile_not (fun b : Boundary => decide (b.offset < o))
          (by rw [hleft]; exact List.cons_ne_nil b rest)
        simpa [hleft] using hhead

theorem Remains.isSome {saved saved' : Option SavedTail} (h : Remains saved saved')
    (hsome : saved'.isSome = true) : saved.isSome = true := by
  obtain ⟨s', hs'⟩ := Option.isSome_iff_exists.1 hsome
  obtain ⟨s, -, hs, -⟩ := h s' hs'
  exact Option.isSome_iff_exists.2 ⟨s, hs⟩

/-- To discard leaves what remains. -/
theorem Remains.discard (saved : Option SavedTail) (o : Nat) :
    Remains saved (saved.bind (·.discardBefore o)) := by
  intro s' h
  obtain ⟨s, hs, hdiscard⟩ := Option.bind_eq_some_iff.1 h
  obtain ⟨⟨front, hentries⟩, hfrontier, -⟩ := SavedTail.discardBefore_eq_some hdiscard
  exact ⟨s, front, hs, hentries, hfrontier⟩

/-- What lies behind a boundary that is met again. -/
theorem SavedTail.behind?_eq_some {s : SavedTail} {b : Boundary} {behind : List Boundary}
    (h : s.behind? b = some behind) : ∃ front, s.entries = front ++ b :: behind := by
  rw [SavedTail.behind?] at h
  split at h
  · exact absurd h (Option.some_ne_none behind).symm
  · rename_i b' rest hdrop
    obtain rfl := Option.some.inj h
    obtain ⟨front, hfront⟩ := exists_append_dropWhile (· != b) s.entries
    have hhead := List.head_dropWhile_not (· != b)
      (l := s.entries) (by rw [hdrop]; exact List.cons_ne_nil b' rest)
    have hb : b' = b := by simpa [hdrop] using hhead
    exact ⟨front, by rw [← hb, ← hdrop]; exact hfront⟩

/-- A boundary that is met stands among those set aside, which have kept their frontier. -/
theorem exists_met {saved : Option SavedTail} {b : Boundary} {behind : List Boundary}
    (h : (saved.bind (·.discardBefore b.offset)).bind (·.behind? b) = some behind) :
    ∃ s front, saved = some s ∧ s.entries = front ++ b :: behind ∧
      (saved.bind (·.discardBefore b.offset)).bind (·.frontier) = s.frontier := by
  obtain ⟨s', hs', hbehind⟩ := Option.bind_eq_some_iff.1 h
  obtain ⟨front', hfront'⟩ := SavedTail.behind?_eq_some hbehind
  -- what was set aside has lost all before this boundary, first here and then in `behind?`
  obtain ⟨s, front, hsaved, hentries, hfrontier⟩ := Remains.discard saved b.offset s' hs'
  refine ⟨s, front ++ front', hsaved, ?_, ?_⟩
  · rw [hentries, hfront', List.append_assoc]
  · rw [hs', Option.bind_some, hfrontier]

/-! ## Sweeping a window -/

/-- A scan of a window finds these boundaries and no more before the bound. -/
structure Sweep (lex : Lexicon) (window : Array Char) (bound : Option Nat) (pos : Nat)
    (state : ScanState) (bs : List Boundary) (pos' : Nat) (state' : ScanState) : Prop where
  scan   : lex.Scans window pos state bs pos' state'
  rest   : ∀ i, pos' ≤ i → i ≤ window.size → (∀ b, bound = some b → i < b) →
    lex.delimiterAt? window i state' = none
  inside : ∀ b, bound = some b → IsLineStart window b → b ≤ window.size → pos ≤ b →
    pos' ≤ b ∧ ∀ x ∈ bs, x.offset < b
  size   : pos ≤ window.size → pos' ≤ window.size

section Sweep

variable {lex : Lexicon} {window : Array Char} {base : Nat} {bound : Option Nat} {pos pos' : Nat}
  {state state' : ScanState} {bs : List Boundary}

/-- A scan with no step to take has swept its window. -/
theorem sweep_of_step_none (hlawful : lex.Lawful) (h : lex.step window pos state = none) :
    Sweep lex window bound pos state [] pos state where
  scan := .done
  rest := fun i hi hle _ => Lexicon.step_eq_none hlawful h i hi hle
  inside := fun b _ _ _ hpos => ⟨hpos, by simp⟩
  size := id

/-- A scan whose next step lies past the bound has swept the window up to the bound. -/
theorem sweep_of_bound (hlawful : lex.Lawful) {s : Step} (h : lex.step window pos state = some s)
    (hbound : (bound.any fun b => b ≤ s.textStart) = true) :
    Sweep lex window bound pos state [] pos state where
  scan := .done
  rest := by
    intro i hi _ hlt
    obtain ⟨b, hb, hle⟩ := (Option.any_eq_true _ _).1 hbound
    have hle := of_decide_eq_true hle
    have := hlt b hb
    exact Lexicon.step_skips hlawful h i hi (by omega)
  inside := fun b _ _ _ hpos => ⟨hpos, by simp⟩
  size := id

/-- A step is taken only before the bound. -/
theorem lt_of_not_bound {o : Nat} {d : Nat × ScanState}
    (hbound : ¬(bound.any fun b => b ≤ (Lexicon.stepOver o d).textStart) = true) :
    ∀ b, bound = some b → o < b := by
  intro b hb
  rw [hb, Lexicon.stepOver_textStart] at hbound
  simpa using hbound

/-- A sweep that begins with a delimiter. -/
theorem Sweep.take (hlocal : lex.LineLocal) {o : Nat} {d : Nat × ScanState}
    (hscan : lex.Scans window pos state [] o state) (ho : o ≤ window.size)
    (hd : lex.delimiterAt? window o state = some d) (hlt : ∀ b, bound = some b → o < b)
    (h : Sweep lex window bound (o + d.1) d.2 bs pos' state') :
    Sweep lex window bound pos state (Lexicon.mark o d :: bs) pos' state' where
  scan := hscan.trans (.take ho hd h.scan)
  rest := h.rest
  inside := by
    intro b hb hline hle hpos
    have hend := Lexicon.delimiterAt?_lt hlocal hline (hlt b hb) hle hd
    obtain ⟨hpos', hbefore⟩ := h.inside b hb hline hle (Nat.le_of_lt hend)
    refine ⟨hpos', ?_⟩
    intro x hx
    rcases List.mem_cons.1 hx with rfl | hx
    · have := Lexicon.mark_le o d
      omega
    · exact hbefore x hx
  size := fun _ => h.size (Lexicon.delimiterAt?_bounds hd).1

/-- The boundary that a step puts into the table is the mark of its delimiter. -/
theorem into_stepOver (base o : Nat) (d : Nat × ScanState) :
    Boundary.into (base + (Lexicon.stepOver o d).offset) (Lexicon.stepOver o d).state =
      (Lexicon.mark o d).shifted base := by
  obtain ⟨n, state⟩ := d
  cases state with
  | outside => exact congrArg Boundary.closing (shift_nat (o + n) base).symm
  | inside tag => exact congrArg (Boundary.opening · tag) (shift_nat o base).symm

/-- How the scan of a batch ends, in offsets of its window. -/
inductive Scanned (lex : Lexicon) (window : Array Char) (base : Nat) (bound : Option Nat)
    (pos : Nat) (state : ScanState) (saved : Option SavedTail) :
    List Boundary × BatchEnd → Prop
  /-- It sweeps the window. -/
  | reached {bs : List Boundary} {pos' : Nat} {state' : ScanState} {saved' : Option SavedTail} :
      Sweep lex window bound pos state bs pos' state' → Remains saved saved' →
      Scanned lex window base bound pos state saved
        (bs.map (·.shifted base), .reached pos' state' saved')
  /-- The last boundary was set aside, and its delimiter begins inside the batch. -/
  | spliced {bs : List Boundary} {o : Nat} {at' : ScanState} {d : Nat × ScanState} {s : SavedTail}
      {front behind : List Boundary} :
      lex.Scans window pos state bs o at' → o ≤ window.size →
      lex.delimiterAt? window o at' = some d → (∀ b, bound = some b → o < b) →
      saved = some s → s.entries = front ++ (Lexicon.mark o d).shifted base :: behind →
      Scanned lex window base bound pos state saved
        ((bs ++ [Lexicon.mark o d]).map (·.shifted base),
          .spliced (base + (Lexicon.mark o d).offset) behind s.frontier)

/-- A delimiter whose boundary was set aside ends the scan. -/
theorem scanned_meet {o : Nat} {d : Nat × ScanState} {saved : Option SavedTail} {b : Boundary}
    {behind : List Boundary} (hscan : lex.Scans window pos state [] o state) (ho : o ≤ window.size)
    (hd : lex.delimiterAt? window o state = some d) (hlt : ∀ b, bound = some b → o < b)
    (hb : b = (Lexicon.mark o d).shifted base)
    (hbehind : (saved.bind (·.discardBefore b.offset)).bind (·.behind? b) = some behind) :
    Scanned lex window base bound pos state saved
      ([b], .spliced b.offset behind ((saved.bind (·.discardBefore b.offset)).bind (·.frontier))) := by
  obtain ⟨s, front, hsaved, hmet, hfrontier⟩ := exists_met hbehind
  have hmeets := Scanned.spliced hscan ho hd hlt hsaved (hb ▸ hmet)
  have hoffset : b.offset = base + (Lexicon.mark o d).offset := by
    rw [hb, Boundary.shifted_offset, shift_nat]
  rw [List.nil_append, List.map_singleton, ← hb, ← hoffset] at hmeets
  rwa [hfrontier]

/-- A delimiter that is not met stands before what is found behind it. -/
theorem Scanned.take (hlocal : lex.LineLocal) {o : Nat} {d : Nat × ScanState}
    {saved saved' : Option SavedTail} {found : List Boundary} {stop : BatchEnd}
    (hscan : lex.Scans window pos state [] o state) (ho : o ≤ window.size)
    (hd : lex.delimiterAt? window o state = some d) (hlt : ∀ b, bound = some b → o < b)
    (hremains : Remains saved saved')
    (h : Scanned lex window base bound (o + d.1) d.2 saved' (found, stop)) :
    Scanned lex window base bound pos state saved
      ((Lexicon.mark o d).shifted base :: found, stop) := by
  cases h with
  | @reached bs pos' state' saved'' hsweep hsaved =>
      show Scanned lex window base bound pos state saved
        (List.map (Boundary.shifted · base) (Lexicon.mark o d :: bs), _)
      exact .reached (hsweep.take hlocal hscan ho hd hlt) (hremains.trans hsaved)
  | @spliced bs o' at' d' s' front' behind hnext ho' hd' hlt' hsaved hentries =>
      obtain ⟨s, front, hs, hfront, hfrontier⟩ := hremains _ hsaved
      have hmet : s.entries = front ++ front' ++ (Lexicon.mark o' d').shifted base :: behind := by
        rw [hfront, hentries, List.append_assoc]
      rw [← hfrontier]
      show Scanned lex window base bound pos state saved
        (List.map (Boundary.shifted · base) (Lexicon.mark o d :: bs ++ [Lexicon.mark o' d']), _)
      exact .spliced (hscan.trans (.take ho hd hnext)) ho' hd' hlt' hs hmet

/-- Every batch scans its window: on the number of steps that are left. -/
theorem scanned_scanBatch (hlocal : lex.LineLocal) (pos : Nat) (state : ScanState)
    (saved : Option SavedTail) :
    Scanned lex window base bound pos state saved
      (Analysis.scanBatch lex window base bound pos state saved) := by
  fun_induction Analysis.scanBatch lex window base bound pos state saved with
  | case1 pos state saved hs =>
      show Scanned lex window base bound pos state saved ([].map (Boundary.shifted · base), _)
      exact .reached (sweep_of_step_none hlocal.isLawful hs) (.refl saved)
  | case2 pos state saved s hs hbound =>
      show Scanned lex window base bound pos state saved ([].map (Boundary.shifted · base), _)
      exact .reached (sweep_of_bound hlocal.isLawful hs hbound) (.refl saved)
  | case3 pos state saved s hs hbound b saved' behind hbehind =>
      obtain ⟨o, d, ho, hd, rfl, hscan⟩ := Lexicon.step_eq_some hlocal.isLawful hs
      exact scanned_meet hscan ho hd (lt_of_not_bound hbound) (into_stepOver base o d) hbehind
  | case4 pos state saved s hs hbound b saved' hbehind found stop heq ih =>
      obtain ⟨o, d, ho, hd, rfl, hscan⟩ := Lexicon.step_eq_some hlocal.isLawful hs
      rw [heq, Lexicon.stepOver_next, Lexicon.stepOver_state] at ih
      have hb : b = (Lexicon.mark o d).shifted base := into_stepOver base o d
      rw [hb]
      exact .take hlocal hscan ho hd (lt_of_not_bound hbound) (.discard saved b.offset) ih

end Sweep

/-! ## From the window to the text -/

namespace Document

/-- The window reaches as far as the batch. -/
theorem le_lookahead (doc : Document) {stop : Nat} (h : stop ≤ doc.length) :
    stop ≤ Analysis.lookahead doc stop := by
  have := doc.le_lineEnd (o := min stop doc.length) (Nat.min_le_right _ _)
  show stop ≤ min (doc.lineEnd (min stop doc.length) + 1) doc.length
  omega

/-- The window reaches beyond the batch, unless both end with the text. -/
theorem lt_lookahead (doc : Document) {stop : Nat} (h : stop < doc.length) :
    stop < Analysis.lookahead doc stop := by
  have := doc.le_lineEnd (o := min stop doc.length) (Nat.min_le_right _ _)
  show stop < min (doc.lineEnd (min stop doc.length) + 1) doc.length
  omega

/-- The window ends with a line. -/
theorem isLineBreak_lookahead (doc : Document) (stop : Nat) :
    doc.IsLineBreak (Analysis.lookahead doc stop) := doc.isLineBreak_lineEnd_succ _

/-- The window of a scan from `start` up to a line break. -/
def window (doc : Document) (start stop : Nat) : Array Char :=
  doc.slice ⟨doc.lineStart start, Analysis.lookahead doc stop⟩

/-- The bound of such a scan, in the window; none when the text ends there. -/
def windowBound (doc : Document) (start stop : Nat) : Option Nat :=
  if stop < doc.length then some (stop - doc.lineStart start) else none

theorem size_window (doc : Document) (start stop : Nat) :
    (doc.window start stop).size = Analysis.lookahead doc stop - doc.lineStart start := by
  have := (doc.isLineBreak_lookahead stop).1
  rw [window, size_slice]
  show min (Analysis.lookahead doc stop) doc.length - doc.lineStart start = _
  omega

end Document

/-- A scan of a slice of whole lines is a piece of the scan of the text. -/
theorem Lexicon.Scans.of_slice {lex : Lexicon} (hlocal : lex.LineLocal) {doc : Document}
    {base stop p q : Nat} {state state' : ScanState} {bs : List Boundary}
    (h : lex.Scans (doc.slice ⟨base, stop⟩) p state bs q state')
    (hbase : IsLineStart doc.chars base) (hstop : doc.IsLineBreak stop) (hle : base ≤ stop)
    (hinside : stop = doc.length ∨ (base + q ≤ stop ∧ ∀ b ∈ bs, base + b.offset < stop)) :
    lex.Scans doc.chars (base + p) state (bs.map (·.shifted base)) (base + q) state' := by
  have hsize : (doc.slice ⟨base, stop⟩).size = stop - base := by
    rw [Document.size_slice]
    have := hstop.1
    show min stop doc.length - base = stop - base
    omega
  have hscan : lex.Scans doc.chars (shift p base) state (bs.map (·.shifted base)) (shift q base)
      state' := by
    refine h.shifted (by omega) ?_
    intro i state hi hsz hlook
    rw [hsize] at hsz
    rw [shift_nat]
    have halike : lex.Alike (doc.slice ⟨base, stop⟩) (base + i - base) doc.chars (base + i) := by
      refine doc.alike_slice hlocal hbase hstop (Nat.le_add_right _ _) ?_
      rcases hinside with hfull | ⟨hq, hbs⟩
      · rcases Nat.lt_or_ge (base + i) stop with hlt | hge
        · exact .inl hlt
        · exact .inr ⟨by omega, hfull⟩
      · rcases hlook with hlt | ⟨b, hb, hle⟩
        · exact .inl (by omega)
        · have := hbs b hb
          exact .inl (by omega)
    rw [Nat.add_sub_cancel_left] at halike
    exact ⟨halike.size', (Lexicon.delimiterAt?_congr hlocal halike state).symm⟩
  rwa [shift_nat, shift_nat] at hscan

section Window

variable {lex : Lexicon} {doc : Document} {start stop : Nat} {state state' : ScanState}
  {bs : List Boundary}

/-- A sweep of a window that ends before the text does is the scan of the text up to the bound. -/
theorem Sweep.scans_to_bound (hlocal : lex.LineLocal) {pos' : Nat} (hstart : start ≤ stop)
    (hbreak : doc.IsLineBreak stop) (hend : stop < doc.length)
    (h : Sweep lex (doc.window start stop) (doc.windowBound start stop)
      (start - doc.lineStart start) state bs pos' state') :
    lex.Scans doc.chars start state (bs.map (·.shifted (doc.lineStart start))) stop state' ∧
      doc.lineStart start + pos' ≤ stop ∧
      ∀ b ∈ bs.map (·.shifted (doc.lineStart start)), b.offset < stop := by
  have hbase : IsLineStart doc.chars (doc.lineStart start) := doc.isLineStart_lineStart _
  have hbasele := doc.lineStart_le start
  have hlook := doc.isLineBreak_lookahead stop
  have hlt := doc.lt_lookahead hend
  have hbound : doc.windowBound start stop = some (stop - doc.lineStart start) := if_pos hend
  -- the line start that bounds the batch is one of the window too
  have hline : IsLineStart doc.chars stop := hbreak.2.resolve_right (by omega)
  have halike := doc.alike_slice hlocal hbase hlook (i := stop) (by omega) (.inl hlt)
  have hwindow : IsLineStart (doc.window start stop) (stop - doc.lineStart start) :=
    halike.line.before.trans hline
  have hfits : stop - doc.lineStart start ≤ (doc.window start stop).size := halike.size
  obtain ⟨hpos', hbefore⟩ := h.inside _ hbound hwindow hfits (by omega)
  have hskips : lex.Scans (doc.window start stop) pos' state' []
      (stop - doc.lineStart start) state' := by
    refine .skips hpos' (Nat.le_succ_of_le hfits) ?_
    intro i hi hi'
    refine h.rest i hi (by omega) ?_
    intro b hb
    obtain rfl := Option.some.inj (hbound.symm.trans hb)
    exact hi'
  have hscan := (h.scan.trans hskips).of_slice hlocal hbase hlook (by omega)
    (.inr ⟨by omega, fun b hb => by
      rw [List.append_nil] at hb
      have := hbefore b hb
      omega⟩)
  have hadd : doc.lineStart start + (start - doc.lineStart start) = start := by omega
  have hq : doc.lineStart start + (stop - doc.lineStart start) = stop := by omega
  rw [hadd, hq, List.append_nil] at hscan
  refine ⟨hscan, by omega, ?_⟩
  intro b hb
  obtain ⟨b', hb', rfl⟩ := List.mem_map.1 hb
  have := hbefore b' hb'
  rw [Boundary.shifted_offset, shift_nat]
  omega

/-- A sweep of a window that ends with the text is the scan past the end of the text. -/
theorem Sweep.scans_to_end (hlocal : lex.LineLocal) {pos' : Nat} (hstart : start ≤ stop)
    (hend : stop = doc.length)
    (h : Sweep lex (doc.window start stop) (doc.windowBound start stop)
      (start - doc.lineStart start) state bs pos' state') :
    lex.Scans doc.chars start state (bs.map (·.shifted (doc.lineStart start))) (doc.length + 1)
        state' ∧ doc.lineStart start + pos' ≤ stop := by
  have hbase : IsLineStart doc.chars (doc.lineStart start) := doc.isLineStart_lineStart _
  have hbasele := doc.lineStart_le start
  have hlook := doc.isLineBreak_lookahead stop
  have hlookle := doc.le_lookahead (Nat.le_of_eq hend)
  have hsize := doc.size_window start stop
  have hbound : doc.windowBound start stop = none := if_neg (by omega)
  have hfull : Analysis.lookahead doc stop = doc.length := by
    have := hlook.1
    omega
  have hpos' := h.size (by omega)
  have hskips : lex.Scans (doc.window start stop) pos' state' []
      ((doc.window start stop).size + 1) state' :=
    .skips (by omega) (Nat.le_refl _) fun i hi hlt => h.rest i hi (by omega) fun b hb =>
      absurd (hbound.symm.trans hb).symm (Option.some_ne_none b)
  have hscan := (h.scan.trans hskips).of_slice hlocal hbase hlook (by omega) (.inl hfull)
  have hadd : doc.lineStart start + (start - doc.lineStart start) = start := by omega
  have hq : doc.lineStart start + ((doc.window start stop).size + 1) = doc.length + 1 := by omega
  rw [hadd, hq, List.append_nil] at hscan
  exact ⟨hscan, by omega⟩

/-- A sweep of a window is the scan of the text, up to the bound or past the end. -/
theorem Sweep.scans (hlocal : lex.LineLocal) {pos' : Nat} (hstart : start ≤ stop)
    (hbreak : doc.IsLineBreak stop)
    (h : Sweep lex (doc.window start stop) (doc.windowBound start stop)
      (start - doc.lineStart start) state bs pos' state') :
    lex.Scans doc.chars start state (bs.map (·.shifted (doc.lineStart start)))
        (if stop < doc.length then stop else doc.length + 1) state' ∧
      (stop < doc.length → ∀ b ∈ bs.map (·.shifted (doc.lineStart start)), b.offset < stop) := by
  rcases Nat.lt_or_eq_of_le hbreak.1 with hend | hend
  · obtain ⟨hscan, -, hbefore⟩ := h.scans_to_bound hlocal hstart hbreak hend
    rw [if_pos hend]
    exact ⟨hscan, fun _ => hbefore⟩
  · rw [if_neg (by omega)]
    exact ⟨(h.scans_to_end hlocal hstart hend).1, fun hlt => absurd hlt (by omega)⟩

/-- A delimiter that a scan of the window comes to is one of the text. -/
theorem Lexicon.Scans.of_window (hlocal : lex.LineLocal) {o : Nat} {at' : ScanState}
    {d : Nat × ScanState} (hstart : start ≤ stop) (hbreak : doc.IsLineBreak stop)
    (h : lex.Scans (doc.window start stop) (start - doc.lineStart start) state bs o at')
    (ho : o ≤ (doc.window start stop).size)
    (hd : lex.delimiterAt? (doc.window start stop) o at' = some d)
    (hlt : ∀ b, doc.windowBound start stop = some b → o < b) :
    lex.Scans doc.chars start state (bs.map (·.shifted (doc.lineStart start)))
        (doc.lineStart start + o) at' ∧
      doc.lineStart start + o ≤ doc.length ∧
      lex.delimiterAt? doc.chars (doc.lineStart start + o) at' = some d := by
  have hbase : IsLineStart doc.chars (doc.lineStart start) := doc.isLineStart_lineStart _
  have hbasele := doc.lineStart_le start
  have hlook := doc.isLineBreak_lookahead stop
  have hlookle := doc.le_lookahead hbreak.1
  have hsize := doc.size_window start stop
  have hadd : doc.lineStart start + (start - doc.lineStart start) = start := by omega
  have hin : doc.lineStart start + o < Analysis.lookahead doc stop ∨
      (doc.lineStart start + o = Analysis.lookahead doc stop ∧
        Analysis.lookahead doc stop = doc.length) := by
    by_cases hend : stop < doc.length
    · have := hlt _ (if_pos hend)
      exact .inl (by omega)
    · have := hlook.1
      omega
  have halike := doc.alike_slice hlocal hbase hlook (i := doc.lineStart start + o) (by omega) hin
  rw [Nat.add_sub_cancel_left] at halike
  have hscan := Lexicon.Scans.of_slice hlocal h hbase hlook (by omega) (by
    rcases hin with h' | ⟨-, h'⟩
    · refine .inr ⟨by omega, ?_⟩
      intro b hb
      have := (h.le_offset hb).2
      omega
    · exact .inl h')
  rw [hadd] at hscan
  exact ⟨hscan, doc.length_eq ▸ halike.size',
    (Lexicon.delimiterAt?_congr hlocal halike at').symm.trans hd⟩

end Window

/-! ## One call -/

namespace BoundaryTable

variable {t : BoundaryTable}

theorem reach_of_some {f : Frontier} (h : t.frontier = some f) (len : Nat) :
    t.reach len = f.offset := by
  rw [reach, frontierOffset?, h]
  rfl

theorem reach_of_none (h : t.frontier = none) (len : Nat) : t.reach len = len := by
  rw [reach, frontierOffset?, h]
  rfl

end BoundaryTable

/-- What one call of `build` comes to, from a table with a frontier. -/
inductive Batch (lex : Lexicon) (doc : Document) (a : Analysis) (f : Frontier) :
    Analysis → BuildReport → Prop
  /-- Without regions there is nothing to scan for. -/
  | idle : lex.hasRegions = false →
      Batch lex doc a f { table := { a.table with frontier := none }, saved := none }
        { range := ⟨f.offset, doc.length⟩, processed := doc.length - f.offset, spliced := false }
  /-- The scan comes to the line start at the end of the batch. -/
  | goesOn {bs : List Boundary} {stop : Nat} {state : ScanState} {saved : Option SavedTail} :
      IsLineStart doc.chars stop → f.offset < stop → stop < doc.length →
      lex.Scans doc.chars f.offset f.state bs stop state → (∀ b ∈ bs, b.offset < stop) →
      Remains a.saved saved →
      (∀ s, saved = some s → ∃ b rest, s.entries = b :: rest ∧ stop ≤ b.offset) →
      Batch lex doc a f
        { table := { entries := a.table.entries ++ bs, frontier := some ⟨stop, state⟩ }, saved }
        { range := ⟨f.offset, stop⟩, processed := stop - f.offset, spliced := false }
  /-- The scan comes to the end of the text. -/
  | ends {bs : List Boundary} {state : ScanState} :
      lex.Scans doc.chars f.offset f.state bs (doc.length + 1) state →
      Batch lex doc a f
        { table := { entries := a.table.entries ++ bs, frontier := none }, saved := none }
        { range := ⟨f.offset, doc.length⟩, processed := doc.length - f.offset, spliced := false }
  /-- The scan meets a boundary set aside. -/
  | meets {bs : List Boundary} {o : Nat} {at' : ScanState} {d : Nat × ScanState} {s : SavedTail}
      {front behind : List Boundary} :
      lex.Scans doc.chars f.offset f.state bs o at' → o ≤ doc.length →
      lex.delimiterAt? doc.chars o at' = some d → a.saved = some s →
      s.entries = front ++ Lexicon.mark o d :: behind →
      Batch lex doc a f
        { table :=
            { entries := a.table.entries ++ (bs ++ [Lexicon.mark o d]) ++ behind
              frontier := s.frontier }
          saved := none }
        { range := ⟨f.offset, max (Lexicon.mark o d).offset f.offset⟩
          processed := (Lexicon.mark o d).offset - f.offset, spliced := true }

/-- A batch ends with a line, and takes a char if there is one left. -/
theorem batchStop_spec (doc : Document) (limit : Nat) {start : Nat} (h : start ≤ doc.length) :
    doc.IsLineBreak (Analysis.batchStop doc start limit) ∧
      start ≤ Analysis.batchStop doc start limit ∧
      (start < doc.length → start < Analysis.batchStop doc start limit) := by
  have hle := doc.le_snapForward (o := min (start + max limit 1) doc.length) (Nat.min_le_right _ _)
  refine ⟨doc.isLineBreak_snapForward _, ?_, ?_⟩
  · show start ≤ doc.snapForward _
    omega
  · show start < doc.length → start < doc.snapForward _
    omega

/-- A complete table is not built any further. -/
theorem Analysis.build_of_none {a : Analysis} (hf : a.table.frontier = none) (lex : Lexicon)
    (doc : Document) (limit : Nat) : a.build lex doc limit = none := by
  rw [Analysis.build, hf]

/-- What a batch from `start` on leaves, by how its scan ends. -/
def Analysis.concluded (a : Analysis) (doc : Document) (start stop : Nat) :
    List Boundary × BatchEnd → Analysis × BuildReport
  | (found, .spliced offset behind frontier) =>
    ({ table := { entries := a.table.entries ++ found ++ behind, frontier }, saved := none },
      { range := ⟨start, max offset start⟩, processed := offset - start, spliced := true })
  | (found, .reached pos state saved) =>
    let reached := max (doc.lineStart start + pos) stop
    ({ table :=
        { entries := a.table.entries ++ found
          frontier := if doc.length ≤ reached then none else some ⟨reached, state⟩ }
       saved := if doc.length ≤ reached then none else saved.bind (·.discardBefore reached) },
      { range := ⟨start, reached⟩, processed := reached - start, spliced := false })

/-- **A call of `build`** has nothing to scan for, or is a scan up to a line break. -/
theorem Analysis.build_cases (lex : Lexicon) (doc : Document) (a : Analysis) (limit : Nat)
    {f : Frontier} (hf : a.table.frontier = some f) {start : Nat}
    (hstart : min f.offset doc.length = start) :
    (lex.hasRegions = false ∧ a.build lex doc limit =
      some ({ table := { a.table with frontier := none }, saved := none },
        { range := ⟨start, doc.length⟩, processed := doc.length - start, spliced := false })) ∨
    ∃ stop, doc.IsLineBreak stop ∧ start ≤ stop ∧ (start < doc.length → start < stop) ∧
      a.build lex doc limit = some (a.concluded doc start stop
        (Analysis.scanBatch lex (doc.window start stop) (doc.lineStart start)
          (doc.windowBound start stop) (start - doc.lineStart start) f.state a.saved)) := by
  rw [Analysis.build, hf]
  simp only [hstart]
  by_cases hregions : lex.hasRegions = true
  · rw [if_neg (by rw [hregions]; decide)]
    obtain ⟨hbreak, hstop, hmoves⟩ := batchStop_spec doc limit (hstart ▸ Nat.min_le_right _ _)
    refine .inr ⟨_, hbreak, hstop, hmoves, ?_⟩
    rw [Document.window, Document.windowBound]
    generalize Analysis.scanBatch lex _ _ _ _ f.state a.saved = result
    obtain ⟨found, ending⟩ := result
    cases ending with
    | spliced offset behind frontier => rfl
    | reached pos state saved =>
        rw [Analysis.concluded]
        dsimp only
        split <;> rfl
  · rw [if_pos (by simpa using hregions)]
    exact .inl ⟨by simpa using hregions, rfl⟩

/-- **One call of `build` does one batch.** -/
theorem build_batch {lex : Lexicon} (hlocal : lex.LineLocal) (doc : Document) (a : Analysis)
    (limit : Nat) {f : Frontier} (hf : a.table.frontier = some f) (hle : f.offset ≤ doc.length) :
    ∃ a' report, a.build lex doc limit = some (a', report) ∧ Batch lex doc a f a' report := by
  rcases a.build_cases lex doc limit hf (Nat.min_eq_left hle) with
    ⟨hregions, hbuild⟩ | ⟨stop, hbreak, hstop, hmoves, hbuild⟩
  · exact ⟨_, _, hbuild, .idle hregions⟩
  · refine ⟨_, _, hbuild, ?_⟩
    have hscanned : Scanned lex (doc.window f.offset stop) (doc.lineStart f.offset)
        (doc.windowBound f.offset stop) (f.offset - doc.lineStart f.offset) f.state a.saved
        (Analysis.scanBatch lex _ _ _ _ f.state a.saved) := scanned_scanBatch hlocal _ _ _
    generalize Analysis.scanBatch lex _ _ _ _ f.state a.saved = result at hscanned
    cases hscanned with
    | @reached bs pos' state' saved' hsweep hsaved =>
        rcases Nat.lt_or_eq_of_le hbreak.1 with hend | hend
        · obtain ⟨hscan, hreach, hbefore⟩ := Sweep.scans_to_bound hlocal hstop hbreak hend hsweep
          simp only [Nat.max_eq_right hreach, if_neg (Nat.not_le.2 hend)]
          refine .goesOn (hbreak.2.resolve_right (by omega)) (hmoves (by omega)) hend hscan hbefore
            (hsaved.trans (.discard saved' stop)) fun s hs => ?_
          obtain ⟨s', -, hdiscard⟩ := Option.bind_eq_some_iff.1 hs
          exact (SavedTail.discardBefore_eq_some hdiscard).2.2
        · obtain ⟨hscan, hreach⟩ := Sweep.scans_to_end hlocal hstop hend hsweep
          subst hend
          simp only [Nat.max_eq_right hreach, if_pos (Nat.le_refl _)]
          exact .ends hscan
    | @spliced bs o at' d s front behind hscan ho hd hlt hsaved hentries =>
        obtain ⟨hdoc, hsize, hd'⟩ := Lexicon.Scans.of_window hlocal hstop hbreak hscan ho hd hlt
        have hmark := Lexicon.mark_add (doc.lineStart f.offset) o d
        have hoffset : doc.lineStart f.offset + (Lexicon.mark o d).offset =
            (Lexicon.mark (doc.lineStart f.offset + o) d).offset := by
          rw [← hmark, Boundary.shifted_offset, shift_nat]
        rw [hmark] at hentries
        simp only [List.map_append, List.map_singleton, hmark, hoffset]
        exact .meets hdoc hsize hd' hsaved hentries

/-! ## From batch to batch -/

/-- The table holds what a scan finds, up to its frontier or to the end of the text. -/
def BoundaryTable.Holds (t : BoundaryTable) (lex : Lexicon) (text : Array Char) : Prop :=
  match t.frontier with
  | some f => f.offset ≤ text.size ∧ lex.Scans text 0 .outside t.entries f.offset f.state
  | none => t.entries = lex.boundaries text 0 .outside

/-- The frontier of a table that holds lies inside the text. -/
theorem BoundaryTable.Holds.frontier_le {t : BoundaryTable} {lex : Lexicon} {text : Array Char}
    (h : t.Holds lex text) {f : Frontier} (hf : t.frontier = some f) : f.offset ≤ text.size := by
  rw [BoundaryTable.Holds, hf] at h
  exact h.1

/-- Once a scan takes one of the boundaries set aside, those behind it are right, and so is their
    frontier. -/
def SavedTail.Resumes (s : SavedTail) (lex : Lexicon) (text : Array Char) : Prop :=
  ∀ front behind o at' d, s.entries = front ++ Lexicon.mark o d :: behind → o ≤ text.size →
    lex.delimiterAt? text o at' = some d →
    match s.frontier with
    | some f => f.offset ≤ text.size ∧ lex.Scans text (o + d.1) d.2 behind f.offset f.state
    | none => behind = lex.boundaries text (o + d.1) d.2

namespace Analysis

variable {lex : Lexicon} {doc : Document} {a a' : Analysis} {f : Frontier} {report : BuildReport}

/-- The table holds, and what is set aside can be taken back. -/
structure Sound (lex : Lexicon) (text : Array Char) (a : Analysis) : Prop where
  table : a.table.Holds lex text
  saved : ∀ s, a.saved = some s → s.Resumes lex text

/-- A fresh analysis is sound. -/
theorem sound_fresh (lex : Lexicon) (text : Array Char) : fresh.Sound lex text :=
  ⟨⟨Nat.zero_le _, .done⟩, fun _ h => absurd h.symm (Option.some_ne_none _)⟩

/-- A saved tail still resumes when only part of it remains. -/
theorem resumes_of_remains {text : Array Char} {saved saved' : Option SavedTail}
    (hremains : Remains saved saved') (h : ∀ s, saved = some s → s.Resumes lex text) :
    ∀ s', saved' = some s' → s'.Resumes lex text := by
  intro s' hs' front behind o at' d hentries ho hd
  obtain ⟨s, front', hs, hfront, hfrontier⟩ := hremains s' hs'
  rw [← hfrontier]
  refine h s hs (front' ++ front) behind o at' d ?_ ho hd
  rw [hfront, hentries, List.append_assoc]

/-- A batch keeps the analysis sound. -/
theorem Sound.batch (hlawful : lex.Lawful) (h : a.Sound lex doc.chars) (hf : a.table.frontier = some f)
    (hbatch : Batch lex doc a f a' report) : a'.Sound lex doc.chars := by
  have htable := h.table
  rw [BoundaryTable.Holds, hf] at htable
  obtain ⟨hle, hscan⟩ := htable
  cases hbatch with
  | idle hregions =>
      refine ⟨?_, fun s hs => absurd hs.symm (Option.some_ne_none s)⟩
      have hnil := hscan.boundaries hlawful
      rw [Lexicon.boundaries_of_not_hasRegions hregions] at hnil
      show a.table.entries = _
      rw [Lexicon.boundaries_of_not_hasRegions hregions]
      exact (List.append_eq_nil_iff.1 hnil.symm).1
  | goesOn hline hlt hstop hnext hbefore hremains hrest =>
      exact ⟨⟨doc.length_eq ▸ Nat.le_of_lt hstop, hscan.trans hnext⟩,
        resumes_of_remains hremains h.saved⟩
  | ends hnext =>
      refine ⟨?_, fun s hs => absurd hs.symm (Option.some_ne_none s)⟩
      exact (hscan.trans (doc.length_eq ▸ hnext)).eq_boundaries hlawful
  | @meets bs o at' d s front behind hnext ho hd hs hentries =>
      refine ⟨?_, fun s hs => absurd hs.symm (Option.some_ne_none s)⟩
      have ho : o ≤ doc.chars.size := doc.length_eq ▸ ho
      have hresumes := h.saved s hs front behind o at' d hentries ho hd
      have hmet := hscan.trans (hnext.trans (.take ho hd .done))
      show match s.frontier with | some f => _ | none => _
      cases hfrontier : s.frontier with
      | none =>
          rw [hfrontier] at hresumes
          show _ = _
          rw [hmet.boundaries hlawful, hresumes]
      | some f' =>
          rw [hfrontier] at hresumes
          exact ⟨hresumes.1, hmet.trans hresumes.2⟩

/-- Calls of `build` that are left at most: each goes on by a char, and taking back what is set
    aside may start that over. -/
def callsLeft (a : Analysis) (doc : Document) : Nat :=
  match a.table.frontier with
  | none => 0
  | some f => doc.length + 1 - f.offset + if a.saved.isSome then doc.length + 1 else 0

/-- Progress of one call of `build`. -/
inductive Advances (a a' : Analysis) (report : BuildReport) : Prop
  /-- The table is complete. -/
  | completes : a'.table.frontier = none → Advances a a' report
  /-- What was set aside is taken back, and gone. -/
  | takesBack : report.spliced = true → a.saved.isSome = true → a'.saved = none →
      Advances a a' report
  /-- The table holds further, and nothing new is set aside. -/
  | goesOn {f f' : Frontier} : a.table.frontier = some f → a'.table.frontier = some f' →
      f.offset < f'.offset → (a'.saved.isSome = true → a.saved.isSome = true) →
      Advances a a' report

/-- Progress brings the end nearer. -/
theorem Advances.callsLeft_lt (h : Advances a a' report) (hf : a.table.frontier = some f)
    (hle : f.offset ≤ doc.length) : a'.callsLeft doc < a.callsLeft doc := by
  have hleft : a.callsLeft doc =
      doc.length + 1 - f.offset + if a.saved.isSome then doc.length + 1 else 0 := by
    rw [callsLeft, hf]
  rw [hleft]
  cases h with
  | completes hnone =>
      rw [callsLeft, hnone]
      show 0 < _
      omega
  | takesBack _ hsome hnone =>
      rw [if_pos hsome, callsLeft, hnone]
      cases a'.table.frontier with
      | none =>
          show 0 < _
          omega
      | some f' =>
          show doc.length + 1 - f'.offset + 0 < _
          omega
  | goesOn hf₁ hf' hlt hsaved =>
      obtain rfl := Option.some.inj (hf.symm.trans hf₁)
      rw [callsLeft, hf']
      show doc.length + 1 - _ + (if a'.saved.isSome then doc.length + 1 else 0) < _
      by_cases hsome : a'.saved.isSome = true
      · rw [if_pos hsome, if_pos (hsaved hsome)]
        omega
      · rw [if_neg hsome]
        omega

end Analysis

/-- A batch takes the analysis forward. -/
theorem Batch.advances (hf : a.table.frontier = some f) (h : Batch lex doc a f a' report) :
    Analysis.Advances a a' report := by
  cases h with
  | idle _ => exact .completes rfl
  | goesOn _ hlt _ _ _ hremains _ => exact .goesOn hf rfl hlt hremains.isSome
  | ends _ => exact .completes rfl
  | meets _ _ _ hs _ => exact .takesBack rfl (Option.isSome_iff_exists.2 ⟨_, hs⟩) rfl

/-! ## Building to the end -/

/-- Calls `build` with one limit after the other, until it answers that nothing is left. -/
def Analysis.buildAll (lex : Lexicon) (doc : Document) :
    (limits : List Nat) → Analysis → Analysis × List BuildReport
  | [], a => (a, [])
  | limit :: limits, a =>
    match a.build lex doc limit with
    | none => (a, [])
    | some (a', report) =>
      let (last, reports) := buildAll lex doc limits a'
      (last, report :: reports)

/-- Extents that follow one another from `p` up to `q`. -/
def Tile : (p : Nat) → List Extent → (q : Nat) → Prop
  | p, [], q => p = q
  | p, e :: rest, q => e.start = p ∧ p ≤ e.stop ∧ Tile e.stop rest q

/-- Without anything set aside a batch reports what it has scanned, and sets nothing aside. -/
theorem Batch.range (h : Batch lex doc a f a' report) (hle : f.offset ≤ doc.length)
    (hsaved : a.saved = none) :
    report.range.start = f.offset ∧ f.offset ≤ report.range.stop ∧
      a'.table.reach doc.length = report.range.stop ∧ a'.saved = none := by
  cases h with
  | idle _ => exact ⟨rfl, hle, rfl, rfl⟩
  | @goesOn bs stop state saved hline hlt hstop hnext hbefore hremains hrest =>
      refine ⟨rfl, Nat.le_of_lt hlt, rfl, ?_⟩
      cases saved with
      | none => rfl
      | some s' =>
          obtain ⟨s, -, hs, -⟩ := hremains s' rfl
          rw [hsaved] at hs
          exact absurd hs.symm (Option.some_ne_none s)
  | ends _ => exact ⟨rfl, hle, rfl, rfl⟩
  | meets _ _ _ hs _ =>
      rw [hsaved] at hs
      exact absurd hs.symm (Option.some_ne_none _)

namespace Analysis

variable {lex : Lexicon} {doc : Document}

/-- A sound analysis stays sound, whatever the limits. -/
theorem Sound.buildAll (hlocal : lex.LineLocal) (limits : List Nat) {a : Analysis}
    (h : a.Sound lex doc.chars) : (a.buildAll lex doc limits).1.Sound lex doc.chars := by
  induction limits generalizing a with
  | nil => exact h
  | cons limit limits ih =>
      rw [Analysis.buildAll]
      cases hf : a.table.frontier with
      | none =>
          rw [build_of_none hf]
          exact h
      | some f =>
          have hle : f.offset ≤ doc.length := doc.length_eq ▸ h.table.frontier_le hf
          obtain ⟨a', report, hbuild, hbatch⟩ := build_batch hlocal doc a limit hf hle
          rw [hbuild]
          exact ih (h.batch hlocal.isLawful hf hbatch)

/-- Enough calls complete the table. -/
theorem Sound.buildAll_complete (hlocal : lex.LineLocal) (limits : List Nat) {a : Analysis}
    (h : a.Sound lex doc.chars) (hlimits : a.callsLeft doc ≤ limits.length) :
    (a.buildAll lex doc limits).1.table.frontier = none := by
  induction limits generalizing a with
  | nil =>
      show a.table.frontier = none
      cases hf : a.table.frontier with
      | none => rfl
      | some f =>
          have hle : f.offset ≤ doc.length := doc.length_eq ▸ h.table.frontier_le hf
          have hzero : a.callsLeft doc ≤ 0 := hlimits
          rw [callsLeft, hf] at hzero
          simp only at hzero
          omega
  | cons limit limits ih =>
      rw [Analysis.buildAll]
      cases hf : a.table.frontier with
      | none =>
          rw [build_of_none hf]
          exact hf
      | some f =>
          have hle : f.offset ≤ doc.length := doc.length_eq ▸ h.table.frontier_le hf
          obtain ⟨a', report, hbuild, hbatch⟩ := build_batch hlocal doc a limit hf hle
          rw [hbuild]
          have hless := (hbatch.advances hf).callsLeft_lt hf hle
          rw [List.length_cons] at hlimits
          exact ih (h.batch hlocal.isLawful hf hbatch) (by omega)

/-- Without anything set aside the reports follow one another, up to where the table holds. -/
theorem Sound.tile (hlocal : lex.LineLocal) (limits : List Nat) {a : Analysis}
    (h : a.Sound lex doc.chars) (hsaved : a.saved = none) :
    Tile (a.table.reach doc.length) ((a.buildAll lex doc limits).2.map (·.range))
      ((a.buildAll lex doc limits).1.table.reach doc.length) ∧
        (a.buildAll lex doc limits).1.saved = none := by
  induction limits generalizing a with
  | nil => exact ⟨rfl, hsaved⟩
  | cons limit limits ih =>
      rw [Analysis.buildAll]
      cases hf : a.table.frontier with
      | none =>
          rw [build_of_none hf]
          exact ⟨rfl, hsaved⟩
      | some f =>
          have hle : f.offset ≤ doc.length := doc.length_eq ▸ h.table.frontier_le hf
          obtain ⟨a', report, hbuild, hbatch⟩ := build_batch hlocal doc a limit hf hle
          obtain ⟨hstart, hstop, hreach', hsaved'⟩ := hbatch.range hle hsaved
          rw [hbuild, BoundaryTable.reach_of_some hf]
          have hrest := ih (h.batch hlocal.isLawful hf hbatch) hsaved'
          rw [hreach'] at hrest
          exact ⟨⟨hstart, hstop, hrest.1⟩, hrest.2⟩

/-- **Batches do not show.**  Whatever the limits, building from nothing comes to an end; the
    ranges of its reports follow one another through the whole text, and the table is that of one
    scan. -/
theorem build_independent_of_limits (hlocal : lex.LineLocal) (doc : Document)
    (limits : Nat → Nat) :
    ∃ calls last reports,
      fresh.buildAll lex doc ((List.range calls).map limits) = (last, reports) ∧
        last.table = { entries := lex.boundaries doc.chars 0 .outside, frontier := none } ∧
        (∀ limit, last.build lex doc limit = none) ∧
        Tile 0 (reports.map (·.range)) doc.length := by
  have hsound := sound_fresh lex doc.chars
  have henough : fresh.callsLeft doc ≤ ((List.range (doc.length + 1)).map limits).length := by
    rw [List.length_map, List.length_range]
    exact Nat.le_refl _
  have hcomplete := hsound.buildAll_complete hlocal _ henough
  have hholds := (hsound.buildAll hlocal ((List.range (doc.length + 1)).map limits)).table
  have htile := (hsound.tile hlocal ((List.range (doc.length + 1)).map limits) rfl).1
  have hreach := BoundaryTable.reach_of_none hcomplete doc.length
  refine ⟨doc.length + 1, _, _, rfl, ?_, build_of_none hcomplete lex doc, ?_⟩
  · rw [BoundaryTable.Holds, hcomplete] at hholds
    rw [← hholds, ← hcomplete]
  · rwa [hreach] at htile

/-- A list over two lines, in batches of one line. -/
theorem build_independent_of_limits_lisp : (Lexicon.ofGrammar .lisp).LineLocal ∧
    ∃ calls last reports,
      fresh.buildAll (.ofGrammar .lisp) .escapedList ((List.range calls).map fun _ => 1) =
          (last, reports) ∧
        last.table = { entries := [.opening 0 1, .closing 6], frontier := none } ∧
        (∀ limit, last.build (.ofGrammar .lisp) .escapedList limit = none) ∧
        Tile 0 (reports.map (·.range)) Document.escapedList.length := by
  rw [← Grammar.boundaries_escapedList]
  exact ⟨Grammar.lineLocal_lisp, build_independent_of_limits Grammar.lineLocal_lisp _ fun _ => 1⟩

end Analysis

end Highlighter
