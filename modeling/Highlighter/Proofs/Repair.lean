import Highlighter.Proofs.Edits

/-! # Repair — cutting the table back and taking boundaries back later

    An edit that changes boundaries cuts the table back to the last close before the edited
    line and sets the boundaries behind the edit aside.  What is set aside comes from the
    scan of an earlier text that looks the same from the first of them on (`Origin`), and
    this stays so through any later edits.  So when a new scan meets one of them, what
    follows is the same in both texts.

    One thing can go wrong.  A table whose frontier is the start of the edited line is kept
    as it is; when its last boundary is an empty close right there, the edit may have
    changed what that close depends on (`Overlooks`).  The run theorem says that nothing
    else can. -/

namespace Highlighter

variable {lex : Lexicon} {text text' : Array Char}

/-! ## What is hidden behind a delimiter -/

namespace Lexicon

/-- No match of a closing pattern that has a char ends in the escape char. -/
def StopsUnescaped (lex : Lexicon) : Prop :=
  ∀ d ∈ lex.regions, ∀ (text : Array Char) (p q : Nat), p ≤ text.size →
    d.stop.endAt? text p = some q → p < q → ∀ e, lex.escape = some e → text[q - 1]? ≠ some e

/-- No comment and no list closes with a backslash. -/
theorem stopsUnescaped_lisp : (ofGrammar .lisp).StopsUnescaped := by
  rw [Grammar.lexicon_lisp]
  intro d hd text p q hp hq hlt e he hlast
  obtain rfl := Option.some.inj he
  simp only [List.mem_cons, List.not_mem_nil, or_false] at hd
  rcases hd with rfl | rfl
  · rw [Grammar.commentDef, Regex.endAt?_pair] at hq
    obtain ⟨⟨-, hchar⟩, hq⟩ := Option.ite_none_right_eq_some.1 hq
    obtain rfl := Option.some.inj hq
    have hlast : text[p + 1]? = some '\\' := hlast
    rw [hlast] at hchar
    exact absurd hchar (by decide)
  · rw [Grammar.listDef, Regex.endAt?_char] at hq
    obtain ⟨hchar, hq⟩ := Option.ite_none_right_eq_some.1 hq
    obtain rfl := Option.some.inj hq
    have hlast : text[p]? = some '\\' := hlast
    rw [hlast] at hchar
    exact absurd hchar (by decide)

/-- A delimiter is not hidden. -/
theorem not_hides_of_delimiterAt? {q : Nat} {state : ScanState} {d : Nat × ScanState}
    (h : lex.delimiterAt? text q state = some d) : lex.hides text q = false := by
  cases state with
  | outside =>
      obtain ⟨m, hm, -⟩ := Option.map_eq_some_iff.1 h
      exact (startAt?_eq_some hm).1
  | inside tag =>
      obtain ⟨m, hm, -⟩ := Option.map_eq_some_iff.1 h
      rw [stopAt?] at hm
      split at hm
      · exact absurd hm (Option.some_ne_none m).symm
      · rename_i hplain
        exact Bool.eq_false_iff.2 hplain

/-- Nothing hides what begins right behind a close. -/
theorem not_hides_of_close (hstops : lex.StopsUnescaped) {q : Nat} {state : ScanState}
    {d : Nat × ScanState} (hq : q ≤ text.size) (h : lex.delimiterAt? text q state = some d)
    (hout : d.2 = .outside) : lex.hides text (q + d.1) = false := by
  have hplain := not_hides_of_delimiterAt? h
  have hstate := (delimiterAt?_bounds h).2.2
  cases state with
  | outside => exact absurd hout (hstate.1 rfl)
  | inside tag =>
      obtain ⟨m, hm, rfl⟩ := Option.map_eq_some_iff.1 h
      have hm' := hm
      rw [stopAt?, if_neg (Bool.eq_false_iff.1 hplain)] at hm
      obtain ⟨def', hdef, hend⟩ := Option.bind_eq_some_iff.1 hm
      obtain ⟨stop, hstop, rfl⟩ := Option.map_eq_some_iff.1 hend
      have hle := (Matcher.endAt?_bounds hstop).1
      show lex.hides text (q + (stop - q)) = false
      rcases Nat.eq_or_lt_of_le hle with rfl | hlt
      · rw [Nat.sub_self]
        exact hplain
      · obtain ⟨last, hlast⟩ : ∃ last, stop = last + 1 := ⟨stop - 1, by omega⟩
        have hadd : q + (stop - q) = last + 1 := by omega
        have hno : lex.escape.any (fun e => text[last]? == some e) = false := by
          cases hescape : lex.escape with
          | none => rfl
          | some e =>
              have hne := hstops def' (List.mem_of_getElem? hdef) text q stop hq hstop hlt e hescape
              rw [hlast, Nat.add_sub_cancel] at hne
              exact beq_eq_false_iff_ne.2 hne
        rw [hadd, hides_succ, hno, Bool.false_and]

/-- Nothing is hidden where a boundary lies. -/
theorem not_hides_mark (hstops : lex.StopsUnescaped) {q : Nat} {state : ScanState}
    {d : Nat × ScanState} (hq : q ≤ text.size) (h : lex.delimiterAt? text q state = some d) :
    lex.hides text (mark q d).offset = false := by
  rw [mark_offset]
  by_cases hop : (mark q d).opens = true
  · rw [if_pos hop]
    exact not_hides_of_delimiterAt? h
  · have hout : d.2 = .outside := by
      rw [Boundary.opens_eq, mark_state] at hop
      simpa using hop
    rw [if_neg hop]
    exact not_hides_of_close hstops hq h hout

section Behind

variable {delta : Int} {o o' : Nat} {at₁ at₂ : ScanState} {d d' : Nat × ScanState}

/-- Delimiters that leave the same boundary end at the same place. -/
theorem end_shifted (hlocal : lex.LineLocal) (ho : o ≤ text.size)
    (hd : lex.delimiterAt? text o at₁ = some d)
    (hd' : lex.delimiterAt? text' o' at₂ = some d') (hmark : (mark o d).shifted delta = mark o' d')
    (hlooks : LooksAhead text (mark o d).offset text' delta)
    (hhides : lex.hides text' (shift (mark o d).offset delta) = lex.hides text (mark o d).offset) :
    shift (o + d.1) delta = o' + d'.1 := by
  have hoffset : shift (mark o d).offset delta = (mark o' d').offset :=
    congrArg Boundary.offset hmark
  have hopens : (mark o' d').opens = (mark o d).opens := by
    rw [← hmark, Boundary.shifted_opens]
  have hstate : d'.2 = d.2 := by
    rw [← mark_state o' d', ← hmark, Boundary.shifted_state, mark_state]
  rw [mark_offset o' d', hopens] at hoffset
  by_cases hop : (mark o d).opens = true
  · -- the boundaries lie where the openings begin, and what is found there is the same
    have hwhere : (mark o d).offset = o := (mark_offset o d).trans (if_pos hop)
    rw [if_pos hop, hwhere] at hoffset
    rw [hwhere] at hlooks hhides
    have halike := hlooks.alike hhides (Nat.le_refl o) ho
    rw [hoffset] at halike
    have hne : d.2 ≠ .outside := by
      intro hout
      rw [Boundary.opens_eq, mark_state, hout] at hop
      exact absurd hop (by decide)
    obtain rfl := (delimiterAt?_bounds hd).2.2.2 hne
    obtain rfl := (delimiterAt?_bounds hd').2.2.2 (hstate ▸ hne)
    have hsame := delimiterAt?_congr hlocal halike .outside
    rw [hd, hd'] at hsame
    obtain rfl := Option.some.inj hsame
    rw [hlooks.shift_eq_add, hoffset]
  · -- the boundaries lie where the closes end
    rw [if_neg hop, mark_offset, if_neg hop] at hoffset
    exact hoffset

/-- Behind one boundary two texts that look ahead alike from there scan alike. -/
theorem Scans.behind (hlocal : lex.LineLocal) (hstops : lex.StopsUnescaped) {q : Nat}
    {state' : ScanState} {bs : List Boundary} (ho : o ≤ text.size)
    (hd : lex.delimiterAt? text o at₁ = some d) (ho' : o' ≤ text'.size)
    (hd' : lex.delimiterAt? text' o' at₂ = some d') (hmark : (mark o d).shifted delta = mark o' d')
    (hlooks : LooksAhead text (mark o d).offset text' delta)
    (h : lex.Scans text (o + d.1) d.2 bs q state') :
    lex.Scans text' (o' + d'.1) d'.2 (bs.map (·.shifted delta)) (shift q delta) state' := by
  have hstate : d'.2 = d.2 := by
    rw [← mark_state o' d', ← hmark, Boundary.shifted_state, mark_state]
  have hoffset : shift (mark o d).offset delta = (mark o' d').offset :=
    congrArg Boundary.offset hmark
  -- nothing is hidden where the boundary lies, so the texts look alike from there on
  have hhides : lex.hides text' (shift (mark o d).offset delta) =
      lex.hides text (mark o d).offset := by
    rw [hoffset, not_hides_mark hstops ho hd, not_hides_mark hstops ho' hd']
  rw [← end_shifted hlocal ho hd hd' hmark hlooks hhides, hstate]
  have hbehind := mark_le o d
  refine h.shifted (by have := hlooks.nonneg; omega) ?_
  intro i state hi hsize _
  have halike := hlooks.alike hhides (i := i) (by omega) hsize
  exact ⟨halike.size, delimiterAt?_congr hlocal halike state⟩

end Behind

end Lexicon

/-! ## Tables that hold -/

namespace BoundaryTable.Holds

variable {t : BoundaryTable}

/-- The scan behind a table, to its frontier or past the end of the text. -/
theorem scans (h : t.Holds lex text) (hlawful : lex.Lawful) :
    ∃ q state, lex.Scans text 0 .outside t.entries q state ∧ q ≤ text.size + 1 ∧
      (∀ f, t.frontier = some f → q = f.offset ∧ state = f.state ∧ f.offset ≤ text.size) ∧
      (t.frontier = none → q = text.size + 1) := by
  rw [BoundaryTable.Holds] at h
  cases hf : t.frontier with
  | none =>
      rw [hf] at h
      have h : t.entries = lex.boundaries text 0 .outside := h
      obtain ⟨state, hscan⟩ := Lexicon.exists_scans hlawful text 0 .outside (Nat.zero_le _)
      rw [← h] at hscan
      exact ⟨_, state, hscan, Nat.le_refl _, fun f hf => absurd hf.symm (Option.some_ne_none f),
        fun _ => rfl⟩
  | some f =>
      rw [hf] at h
      refine ⟨f.offset, f.state, h.2, Nat.le_succ_of_le h.1, ?_,
        fun hnone => absurd hnone (Option.some_ne_none f)⟩
      intro f' hf'
      obtain rfl := Option.some.inj hf'
      exact ⟨rfl, rfl, h.1⟩

/-- Boundaries of a table that holds open and close by turns. -/
theorem regular (h : t.Holds lex text) : Lexicon.Regular 0 .outside t.entries := by
  rw [BoundaryTable.Holds] at h
  cases hf : t.frontier with
  | none =>
      rw [hf] at h
      have h : t.entries = lex.boundaries text 0 .outside := h
      rw [h]
      exact Lexicon.regular_boundaries lex text 0 .outside
  | some f =>
      rw [hf] at h
      exact h.2.regular

/-- Boundaries of a table that holds are not behind its frontier. -/
theorem le_frontier (h : t.Holds lex text) {f : Frontier} (hf : t.frontier = some f) {b : Boundary}
    (hb : b ∈ t.entries) : b.offset ≤ f.offset := by
  rw [BoundaryTable.Holds, hf] at h
  exact (h.2.le_offset hb).2

/-- Boundaries of a table that holds lie inside the text. -/
theorem le_size (h : t.Holds lex text) {b : Boundary} (hb : b ∈ t.entries) :
    b.offset ≤ text.size := by
  cases hf : t.frontier with
  | none =>
      rw [BoundaryTable.Holds, hf] at h
      have h : t.entries = lex.boundaries text 0 .outside := h
      exact Lexicon.boundaries_le_size (h ▸ hb)
  | some f =>
      have hle := h.le_frontier hf hb
      rw [BoundaryTable.Holds, hf] at h
      exact Nat.le_trans hle h.1

/-- Where a boundary of the table comes from, and how the scan goes on behind it. -/
theorem split (h : t.Holds lex text) (hlawful : lex.Lawful) {front behind : List Boundary} {b : Boundary}
    (hentries : t.entries = front ++ b :: behind) :
    ∃ o at' d q state, lex.Scans text 0 .outside front o at' ∧ o ≤ text.size ∧
      lex.delimiterAt? text o at' = some d ∧ Lexicon.mark o d = b ∧
      lex.Scans text (o + d.1) d.2 behind q state ∧
      (∀ f, t.frontier = some f → q = f.offset ∧ state = f.state ∧ f.offset ≤ text.size) ∧
      (t.frontier = none → q = text.size + 1) := by
  obtain ⟨q, state, hscan, -, hsome, hnone⟩ := h.scans hlawful
  rw [hentries] at hscan
  obtain ⟨o, at', d, hfront, ho, hd, hmark, hbehind⟩ := hscan.split
  exact ⟨o, at', d, q, state, hfront, ho, hd, hmark, hbehind, hsome, hnone⟩

end BoundaryTable.Holds

/-! ## Where saved boundaries come from -/

/-- The scan of an earlier text that saved boundaries are from. -/
structure Origin where
  text     : Array Char
  /-- The boundaries before those that are saved still. -/
  front    : List Boundary
  tail     : List Boundary
  frontier : Option Frontier
  /-- How far the text behind the edits has moved since. -/
  delta    : Int

/-- The saved boundaries are those of the origin, moved, and the present text looks as the earlier
    one did from the first of them on. -/
structure Origin.Fits (og : Origin) (lex : Lexicon) (text : Array Char) (s : SavedTail) : Prop where
  entries  : s.entries = og.tail.map (·.shifted og.delta)
  frontier : s.frontier = og.frontier.map fun f => { f with offset := shift f.offset og.delta }
  holds    : BoundaryTable.Holds { entries := og.front ++ og.tail, frontier := og.frontier } lex
    og.text
  looks    : ∀ b rest, og.tail = b :: rest → LooksAhead og.text b.offset text og.delta

namespace Origin.Fits

variable {og : Origin} {s s' : SavedTail}

/-- The texts look alike from every saved boundary on. -/
theorem looksAhead (h : og.Fits lex text s) {front rest : List Boundary} {b : Boundary}
    (htail : og.tail = front ++ b :: rest) : LooksAhead og.text b.offset text og.delta := by
  cases front with
  | nil => exact h.looks b rest htail
  | cons b₀ front =>
      have hregular := h.holds.regular
      rw [htail] at hregular
      obtain ⟨p, at', -, hregular⟩ := hregular.of_append
      have hsorted := hregular.pairwise
      have hentries : og.front ++ og.tail = og.front ++ b₀ :: front ++ b :: rest := by
        rw [htail]
        simp
      -- the texts look alike from the first of them on, and the others lie behind it
      refine (h.looks b₀ _ htail).mono ?_ ?_
      · exact (List.pairwise_cons.1 hsorted).1 b (by simp)
      · exact h.holds.le_size (by simp [hentries])

/-- A saved boundary is one of the earlier text, moved. -/
theorem split_entries (h : og.Fits lex text s) {front behind : List Boundary} {b : Boundary}
    (hentries : s.entries = front ++ b :: behind) :
    ∃ l₁ x l₂, og.tail = l₁ ++ x :: l₂ ∧ x.shifted og.delta = b ∧
      l₂.map (·.shifted og.delta) = behind := by
  rw [h.entries] at hentries
  obtain ⟨l₁, l₂, htail, -, hl₂⟩ := List.map_eq_append_iff.1 hentries
  obtain ⟨x, l₂, rfl, hx, hbehind⟩ := List.map_eq_cons_iff.1 hl₂
  exact ⟨l₁, x, l₂, htail, hx, hbehind⟩

/-- **What is set aside can be taken back**: the scan that meets one of the boundaries goes on as
    the scan of the earlier text did. -/
theorem resumes (h : og.Fits lex text s) (hlocal : lex.LineLocal) (hstops : lex.StopsUnescaped) :
    s.Resumes lex text := by
  intro front behind o at' d hentries ho hd
  obtain ⟨l₁, b, rest, htail, hb, hrest⟩ := h.split_entries hentries
  have hsplit : og.front ++ og.tail = og.front ++ l₁ ++ b :: rest := by
    rw [htail, List.append_assoc]
  obtain ⟨o₁, at₁, d₁, q, state, -, ho₁, hd₁, rfl, hscan, hsome, hnone⟩ :=
    h.holds.split hlocal.isLawful hsplit
  -- the boundary that is met is one of the earlier scan, which has come to it at `o₁`
  have hlooks := h.looksAhead htail
  have hbehind := Lexicon.Scans.behind hlocal hstops ho₁ hd₁ ho hd hb hlooks hscan
  rw [hrest] at hbehind
  rw [h.frontier]
  cases hf : og.frontier with
  | none =>
      rw [hnone hf, hlooks.shift_end] at hbehind
      exact hbehind.eq_boundaries hlocal.isLawful
  | some f =>
      obtain ⟨rfl, rfl, hsize⟩ := hsome f hf
      exact ⟨hlooks.shift_le hsize, hbehind⟩

/-- A rest of what is saved is from the same scan. -/
theorem remains (h : og.Fits lex text s) {front : List Boundary}
    (hentries : s.entries = front ++ s'.entries) (hfrontier : s.frontier = s'.frontier) :
    ∃ l₁ l₂, og.tail = l₁ ++ l₂ ∧
      Origin.Fits { og with front := og.front ++ l₁, tail := l₂ } lex text s' := by
  rw [h.entries] at hentries
  obtain ⟨l₁, l₂, htail, -, hl₂⟩ := List.map_eq_append_iff.1 hentries
  refine ⟨l₁, l₂, htail, ⟨hl₂.symm, hfrontier.symm.trans h.frontier, ?_, ?_⟩⟩
  · have := h.holds
    rwa [htail, ← List.append_assoc] at this
  · rintro b rest rfl
    exact h.looksAhead htail

end Origin.Fits

/-- What `capture` sets aside lies behind the edit. -/
theorem SavedTail.capture_eq_some {entries : List Boundary} {frontier : Option Frontier}
    {oldStop : Nat} {delta : Int} {s : SavedTail}
    (h : capture entries frontier oldStop delta = some s) :
    (∀ f, frontier = some f → oldStop < f.offset) ∧ ∃ front b rest, entries = front ++ b :: rest ∧
      oldStop < b.offset ∧ s.entries = (b :: rest).map (·.shifted delta) ∧
      s.frontier = frontier.map fun f => { f with offset := shift f.offset delta } := by
  rw [capture] at h
  split at h
  · exact absurd h (Option.some_ne_none s).symm
  · rename_i hfar
    dsimp only at h
    split at h
    · exact absurd h (Option.some_ne_none s).symm
    · rename_i hne
      obtain rfl := Option.some.inj h
      refine ⟨?_, ?_⟩
      · intro f hf
        rw [hf] at hfar
        simpa using hfar
      · obtain ⟨front, hfront⟩ :=
          exists_append_dropWhile (fun b : Boundary => b.offset ≤ oldStop) entries
        cases hpast : entries.dropWhile fun b => b.offset ≤ oldStop with
        | nil => exact absurd (by rw [hpast]; rfl) hne
        | cons b rest =>
            refine ⟨front, b, rest, hpast ▸ hfront, ?_, rfl, rfl⟩
            have hhead := List.head_dropWhile_not (fun b : Boundary => decide (b.offset ≤ oldStop))
              (l := entries) (by rw [hpast]; exact List.cons_ne_nil b rest)
            simpa [hpast] using hhead

/-- What an edit sets aside is from the scan of the text before it. -/
theorem BoundaryTable.Holds.capture {t : BoundaryTable} {e : Edit} {s : SavedTail}
    (h : t.Holds lex text) (hedit : Edited text text' e)
    (hs : SavedTail.capture t.entries t.frontier e.oldStop e.delta = some s) :
    ∃ front tail, t.entries = front ++ tail ∧ (∀ b rest, tail = b :: rest → e.oldStop < b.offset) ∧
      Origin.Fits ⟨text, front, tail, t.frontier, e.delta⟩ lex text' s := by
  obtain ⟨-, front, b, rest, hentries, hb, hs, hfrontier⟩ := SavedTail.capture_eq_some hs
  have hfirst : ∀ b' rest', b :: rest = b' :: rest' → e.oldStop < b'.offset := by
    rintro b' rest' heq
    obtain ⟨rfl, -⟩ := List.cons.inj heq
    exact hb
  refine ⟨front, b :: rest, hentries, hfirst, hs, hfrontier, hentries ▸ h, ?_⟩
  rintro b' rest' heq
  obtain ⟨rfl, rfl⟩ := List.cons.inj heq
  exact hedit.looksAhead hb (h.le_size (by simp [hentries]))

/-- What stays saved through an edit is from the same scan as before. -/
theorem Origin.Fits.adjust {og : Origin} {e : Edit} {s s' : SavedTail} (h : og.Fits lex text s)
    (hedit : Edited text text' e) (hs : s.adjust e.oldStop e.delta = some s') :
    ∃ l₁ l₂, og.tail = l₁ ++ l₂ ∧
      (∀ b rest, l₂ = b :: rest → e.oldStop < shift b.offset og.delta) ∧ Origin.Fits
      { og with front := og.front ++ l₁, tail := l₂, delta := og.delta + e.delta } lex text' s' := by
  obtain ⟨hfar, front, b, rest, hentries, hb, hs, hfrontier⟩ := SavedTail.capture_eq_some hs
  obtain ⟨l₁, b₁, rest₁, htail, rfl, rfl⟩ := h.split_entries hentries
  have hlooks := h.looksAhead htail
  have hholds := h.holds
  rw [htail, ← List.append_assoc] at hholds
  have hsorted := (hholds.regular.of_append).elim fun _ h => h.elim fun _ h => h.2.pairwise
  -- both moves are of places that stay in the text
  have hmoves : ∀ b ∈ b₁ :: rest₁, 0 ≤ (b.offset : Int) + og.delta := by
    intro b hb
    have hnn := hlooks.nonneg
    rcases List.mem_cons.1 hb with rfl | hb
    · exact hnn
    · have := (List.pairwise_cons.1 hsorted).1 b hb
      omega
  have hfirst : ∀ b rest, b₁ :: rest₁ = b :: rest → e.oldStop < shift b.offset og.delta := by
    rintro b rest heq
    obtain ⟨rfl, -⟩ := List.cons.inj heq
    exact hb
  refine ⟨l₁, b₁ :: rest₁, htail, hfirst, ?_, ?_, hholds, ?_⟩
  · have hmoved : s'.entries =
        ((b₁ :: rest₁).map (·.shifted og.delta)).map (·.shifted e.delta) := hs
    rw [hmoved, List.map_map]
    exact List.map_congr_left fun b hb => Boundary.shifted_shifted (hmoves b hb)
  · rw [hfrontier, h.frontier]
    cases hf : og.frontier with
    | none => rfl
    | some f =>
        have hle : b₁.offset ≤ f.offset :=
          BoundaryTable.Holds.le_frontier hholds hf (List.mem_append_right _ List.mem_cons_self)
        have hnn : 0 ≤ (f.offset : Int) + og.delta := by
          have := hlooks.nonneg
          omega
        show some (Frontier.mk (shift (shift f.offset og.delta) e.delta) f.state) =
          some ⟨shift f.offset (og.delta + e.delta), f.state⟩
        rw [shift_shift hnn]
  · rintro b' rest' heq
    obtain ⟨rfl, rfl⟩ := List.cons.inj heq
    exact hlooks.trans (hedit.looksAhead hb (hlooks.shift_le hlooks.le_size))

/-! ## Cutting the table back -/

/-- What is kept lies before the cut, and ends with a close. -/
theorem keptBefore_spec (entries : List Boundary) (cut : Nat) :
    ∃ rest, entries = keptBefore entries cut ++ rest ∧
      (∀ b ∈ keptBefore entries cut, b.offset < cut) ∧
      (keptBefore entries cut = [] ∨
        ∃ init b, keptBefore entries cut = init ++ [b] ∧ b.tag = none) := by
  obtain ⟨last, hlast⟩ := exists_append_dropWhile (fun b : Boundary => b.opens)
    (entries.takeWhile fun b => b.offset < cut).reverse
  -- openings at the end are dropped, and what is then last is a close
  have htake : (entries.takeWhile fun b => b.offset < cut) =
      keptBefore entries cut ++ last.reverse := by
    have := congrArg List.reverse hlast
    rwa [List.reverse_reverse, List.reverse_append] at this
  refine ⟨last.reverse ++ entries.dropWhile fun b => b.offset < cut, ?_, ?_, ?_⟩
  · rw [← List.append_assoc, ← htake, List.takeWhile_append_dropWhile]
  · intro b hb
    have hmem : b ∈ entries.takeWhile fun b => b.offset < cut := by
      rw [htake]
      exact List.mem_append_left _ hb
    simpa using List.all_eq_true.1 List.all_takeWhile b hmem
  · rw [keptBefore]
    cases hdrop : (entries.takeWhile fun b => b.offset < cut).reverse.dropWhile (·.opens) with
    | nil => exact .inl rfl
    | cons b rest =>
        refine .inr ⟨rest.reverse, b, List.reverse_cons, ?_⟩
        have hhead := List.head_dropWhile_not (fun b : Boundary => b.opens)
          (l := (entries.takeWhile fun b => b.offset < cut).reverse)
          (by rw [hdrop]; exact List.cons_ne_nil b rest)
        simp only [hdrop, List.head_cons] at hhead
        simpa [Boundary.opens] using hhead

/-- A line start before which an edit has changed nothing. -/
structure CutAt (text text' : Array Char) (cut : Nat) : Prop where
  line  : IsLineStart text' cut
  size  : cut ≤ text.size
  size' : cut ≤ text'.size
  agree : ∀ i < cut, text'[i]? = text[i]?

theorem CutAt.line_before {cut : Nat} (h : CutAt text text' cut) : IsLineStart text cut :=
  (charBefore_congr h.agree).symm.trans h.line

/-- An edit changes nothing before its line. -/
theorem Edited.cutAt {doc : Document} {e : Edit} (h : Edited text doc.chars e) :
    CutAt text doc.chars (doc.lineStart e.pos) := by
  have hle := doc.lineStart_le e.pos
  obtain ⟨hpos, hpos'⟩ := h.pos_le
  exact ⟨doc.isLineStart_lineStart e.pos, by omega, by omega, fun i hi => h.before i (by omega)⟩

namespace Lexicon

variable {cut : Nat}

/-- A boundary at a line start that a scan goes on from there is an empty close: an opening has
    chars, and so would a close that begins on an earlier line. -/
theorem empty_close_of_line (hlocal : lex.LineLocal) (hline : IsLineStart text cut)
    (hsize : cut ≤ text.size) {o : Nat} {state : ScanState} {d : Nat × ScanState}
    (hd : lex.delimiterAt? text o state = some d) (hat : (mark o d).offset = cut)
    (hend : o + d.1 ≤ cut) : o = cut ∧ d = (0, .outside) := by
  obtain ⟨-, hpos, hturn⟩ := delimiterAt?_bounds hd
  have hwhere := mark_offset o d
  have hclose : (mark o d).opens = false := by
    refine Bool.eq_false_iff.2 ?_
    intro hop
    rw [if_pos hop] at hwhere
    rw [Boundary.opens_eq, mark_state] at hop
    have := hpos (hturn.2 (by simpa using hop))
    omega
  rw [hclose, if_neg Bool.false_ne_true] at hwhere
  rw [Boundary.opens_eq, mark_state] at hclose
  have hout : d.2 = .outside := by simpa using hclose
  rcases Nat.lt_or_ge o cut with hlt | hge
  · have := delimiterAt?_lt hlocal hline hlt hsize hd
    omega
  · exact ⟨by omega, Prod.ext (by omega) hout⟩

/-- A close that a scan of the region finds right where it begins is an empty one. -/
theorem empty_close_of_mem (hlawful : lex.Lawful) {tag : Nat} (hsize : cut ≤ text.size)
    (h : Boundary.closing cut ∈ lex.boundaries text cut (.inside tag)) :
    lex.delimiterAt? text cut (.inside tag) = some (0, .outside) := by
  cases hd : lex.delimiterAt? text cut (.inside tag) with
  | none =>
      rw [boundaries_of_none hlawful hd] at h
      have : cut + 1 ≤ cut := (regular_boundaries lex text (cut + 1) _).le_offset h
      omega
  | some d =>
      obtain ⟨n, state⟩ := d
      have hturn := (delimiterAt?_bounds hd).2.2
      obtain rfl : state = .outside :=
        Classical.byContradiction fun hin => ScanState.noConfusion (hturn.2 hin)
      rw [boundaries_of_some hlawful hsize hd] at h
      have hle : cut + n ≤ cut := by
        rcases List.mem_cons.1 h with heq | hin
        · exact Nat.le_of_eq (congrArg Boundary.offset heq).symm
        · exact (regular_boundaries lex text (cut + n) _).le_offset hin
      obtain rfl : n = 0 := by omega
      rfl

end Lexicon

namespace BoundaryTable.Holds

variable {t : BoundaryTable} {cut : Nat}

/-- What is kept is what a scan of the edited text finds, up to its last close. -/
theorem kept (h : t.Holds lex text) (hlocal : lex.LineLocal) (hcut : CutAt text text' cut) :
    lex.Scans text' 0 .outside (keptBefore t.entries cut) (lastOffset (keptBefore t.entries cut))
        .outside ∧ lastOffset (keptBefore t.entries cut) ≤ cut := by
  obtain ⟨rest, hentries, hbefore, hlast⟩ := keptBefore_spec t.entries cut
  rcases hlast with hnil | ⟨init, b, hinit, hclose⟩
  · rw [hnil]
    exact ⟨.done, Nat.zero_le _⟩
  -- the last close leads out of regions, so the scan up to it can be gone on with
  · have hoffset : lastOffset (init ++ [b]) = b.offset := by
      rw [lastOffset, List.getLast?_concat]
      rfl
    rw [hinit] at hbefore hentries ⊢
    rw [hoffset]
    have hlt := hbefore b (by simp)
    obtain ⟨q, state, hscan, -⟩ := h.scans hlocal.isLawful
    rw [hentries, List.append_assoc] at hscan
    exact ⟨(hscan.append_close hclose).1.before hlocal hcut.line hcut.size hcut.size' hcut.agree
      (Nat.le_of_lt hlt) hbefore, Nat.le_of_lt hlt⟩

/-- The table that is cut back holds for the edited text. -/
theorem truncate (h : t.Holds lex text) (hlocal : lex.LineLocal) (hcut : CutAt text text' cut) :
    (t.truncate cut).Holds lex text' := by
  obtain ⟨hscan, hle⟩ := h.kept hlocal hcut
  have := hcut.size'
  exact ⟨by show lastOffset _ ≤ _; omega, hscan⟩

/-- A close at a line start is empty, and only there a kept table depends on the edited line. -/
theorem last_at_cut (h : t.Holds lex text) (hlocal : lex.LineLocal) (hcut : CutAt text text' cut)
    {f : Frontier} (hf : t.frontier = some f) (hat : f.offset = cut) {init : List Boundary}
    {b : Boundary} (hentries : t.entries = init ++ [b]) (hb : b.offset = f.offset) :
    b = .closing cut ∧ f.state = .outside ∧ (∀ b ∈ init, b.offset < cut) ∧
      ∃ tag, lex.Scans text' 0 .outside init cut (.inside tag) := by
  have hline := hcut.line_before
  obtain ⟨o, at', d, q, state, hfront, ho, hd, rfl, hscan, hsome, -⟩ := h.split hlocal.isLawful hentries
  obtain ⟨rfl, rfl, -⟩ := hsome f hf
  have hat' := hb.trans hat
  obtain ⟨rfl, rfl⟩ :=
    Lexicon.empty_close_of_line hlocal hline hcut.size hd hat' (hat ▸ hscan.le)
  obtain ⟨tag, rfl⟩ : ∃ tag, at' = .inside tag := by
    cases at' with
    | outside => exact absurd rfl ((Lexicon.delimiterAt?_bounds hd).2.2.1 rfl)
    | inside tag => exact ⟨tag, rfl⟩
  have hbefore : ∀ b ∈ init, b.offset < o := by
    have hregular := h.regular
    rw [hentries] at hregular
    have := hregular.lt_close rfl
    rwa [hat'] at this
  exact ⟨rfl, hscan.state_eq.symm, hbefore, tag, hfront.before hlocal hcut.line hcut.size
    hcut.size' hcut.agree (Nat.le_refl o) hbefore⟩

/-- When a boundary is not before the frontier, the last one lies at the frontier. -/
theorem exists_last (h : t.Holds lex text) {f : Frontier} (hf : t.frontier = some f) {b₀ : Boundary}
    (hmem : b₀ ∈ t.entries) (hge : f.offset ≤ b₀.offset) :
    ∃ init b, t.entries = init ++ [b] ∧ b.offset = f.offset := by
  rcases List.eq_nil_or_concat t.entries with hnil | ⟨init, b, hentries⟩
  · rw [hnil] at hmem
    exact absurd hmem List.not_mem_nil
  · rw [List.concat_eq_append] at hentries
    have hbound := h.le_frontier hf (b := b) (by rw [hentries]; simp)
    have hsorted := h.regular.pairwise
    rw [hentries] at hsorted hmem
    refine ⟨init, b, hentries, Nat.le_antisymm hbound (Nat.le_trans hge ?_)⟩
    rcases List.mem_append.1 hmem with hin | hin
    · exact (List.pairwise_append.1 hsorted).2.2 b₀ hin b List.mem_cons_self
    · obtain rfl := List.mem_singleton.1 hin
      exact Nat.le_refl _

/-- A table that has not got past the cut holds for the edited text, unless its last boundary is a
    close right there that the edit has done away with. -/
theorem unmoved (h : t.Holds lex text) (hlocal : lex.LineLocal) (hcut : CutAt text text' cut)
    {f : Frontier} (hf : t.frontier = some f) (hle : f.offset ≤ cut)
    (hlast : ∀ b, t.entries.getLast? = some b → b.offset = f.offset → f.offset = cut →
      b ∈ lex.boundaries text' 0 .outside) : t.Holds lex text' := by
  obtain ⟨q, state, hscan, -, hsome, -⟩ := h.scans hlocal.isLawful
  obtain ⟨rfl, rfl, -⟩ := hsome f hf
  have hsize' := hcut.size'
  have hgoal : lex.Scans text' 0 .outside t.entries f.offset f.state → t.Holds lex text' := by
    intro hscan
    rw [BoundaryTable.Holds, hf]
    exact ⟨by omega, hscan⟩
  by_cases hall : ∀ b ∈ t.entries, b.offset < cut
  · exact hgoal (hscan.before hlocal hcut.line hcut.size hcut.size' hcut.agree hle hall)
  · obtain ⟨b₀, hb₀⟩ := Classical.not_forall.1 hall
    obtain ⟨hmem, hge⟩ := Classical.not_imp.1 hb₀
    have hat : f.offset = cut := by
      have := h.le_frontier hf hmem
      omega
    obtain ⟨init, b, hentries, hb⟩ := h.exists_last hf hmem (by omega)
    obtain ⟨rfl, hstate, hbefore, tag, hinit⟩ := h.last_at_cut hlocal hcut hf hat hentries hb
    -- the close is in the edited text too, where only an empty one can stand
    have hfound := hlast (.closing cut) (by rw [hentries, List.getLast?_concat]) hb hat
    rw [hinit.boundaries hlocal.isLawful] at hfound
    have hfound : Boundary.closing cut ∈ lex.boundaries text' cut (.inside tag) := by
      rcases List.mem_append.1 hfound with hin | hin
      · exact absurd (hbefore _ hin) (Nat.lt_irrefl cut)
      · exact hin
    have hd := Lexicon.empty_close_of_mem hlocal.isLawful hcut.size' hfound
    have htake := hinit.trans (.take hcut.size' hd .done)
    have hempty : Lexicon.mark cut (0, .outside) = .closing cut := rfl
    rw [hempty, ← hentries, Nat.add_zero, ← hat] at htake
    exact hgoal (by rwa [hstate])

end BoundaryTable.Holds

/-! ## An edit that changes boundaries -/

namespace Analysis

variable {a a' : Analysis} {doc : Document} {e : Edit}

/-- The table holds, and what is set aside is from the scan of an earlier text. -/
structure Faithful (lex : Lexicon) (text : Array Char) (a : Analysis) : Prop where
  table : a.table.Holds lex text
  saved : ∀ s, a.saved = some s → ∃ og : Origin, og.Fits lex text s

/-- A fresh analysis is faithful. -/
theorem faithful_fresh (lex : Lexicon) (text : Array Char) : fresh.Faithful lex text :=
  ⟨⟨Nat.zero_le _, .done⟩, fun _ h => absurd h.symm (Option.some_ne_none _)⟩

/-- A faithful analysis can be built on. -/
theorem Faithful.sound (h : a.Faithful lex text) (hlocal : lex.LineLocal)
    (hstops : lex.StopsUnescaped) : a.Sound lex text :=
  ⟨h.table, fun s hs => (h.saved s hs).elim fun _ hfits => hfits.resumes hlocal hstops⟩

/-- A batch takes nothing else to be set aside. -/
theorem Faithful.batch (h : a.Faithful lex doc.chars) (hlocal : lex.LineLocal)
    (hstops : lex.StopsUnescaped) {f : Frontier} {report : BuildReport}
    (hf : a.table.frontier = some f) (hbatch : Batch lex doc a f a' report) :
    a'.Faithful lex doc.chars := by
  refine ⟨((h.sound hlocal hstops).batch hlocal.isLawful hf hbatch).table, ?_⟩
  intro s' hs'
  cases hbatch with
  | idle _ => exact absurd hs'.symm (Option.some_ne_none s')
  | goesOn _ _ _ _ _ hremains _ =>
      obtain ⟨s, front, hs, hentries, hfrontier⟩ := hremains s' hs'
      obtain ⟨og, hfits⟩ := h.saved s hs
      obtain ⟨l₁, l₂, -, hfits'⟩ := hfits.remains hentries hfrontier
      exact ⟨_, hfits'⟩
  | ends _ => exact absurd hs'.symm (Option.some_ne_none s')
  | meets _ _ _ _ _ => exact absurd hs'.symm (Option.some_ne_none s')

/-- The table is kept as it is, up to the start of the edited line, but the edited text has no
    boundary like its last one, a close right there. -/
def Overlooks (lex : Lexicon) (a : Analysis) (doc : Document) (e : Edit) : Prop :=
  ∃ f b, a.table.frontier = some f ∧ f.offset = doc.lineStart e.pos ∧
    a.table.entries.getLast? = some b ∧ b.offset = f.offset ∧
    b ∉ lex.boundaries doc.chars 0 .outside

/-- A table that does not reach past the start of the edited line is kept as it is. -/
theorem invalidate_table_of_past {f : Frontier} (hf : a.table.frontier = some f)
    (hle : f.offset ≤ doc.lineStart e.pos) : (a.invalidate doc e).table = a.table := by
  show (if a.table.frontier.any (fun f => f.offset ≤ doc.lineStart e.pos) then _ else _) = _
  rw [hf, Option.any_some, if_pos (decide_eq_true hle)]

/-- A table that reaches past the start of the edited line is cut back to there. -/
theorem invalidate_table_of_not_past
    (hpast : ¬∃ f, a.table.frontier = some f ∧ f.offset ≤ doc.lineStart e.pos) :
    (a.invalidate doc e).table = a.table.truncate (doc.lineStart e.pos) := by
  show (if a.table.frontier.any (fun f => f.offset ≤ doc.lineStart e.pos) then _ else _) = _
  refine if_neg fun hany => hpast ?_
  obtain ⟨f, hf, hle⟩ := (Option.any_eq_true _ _).1 hany
  exact ⟨f, hf, of_decide_eq_true hle⟩

/-- What an edit leaves set aside: what was, moved along, or what the table has behind it. -/
theorem invalidate_saved {s' : SavedTail} (h : (a.invalidate doc e).saved = some s') :
    (∃ s, a.saved = some s ∧ s.adjust e.oldStop e.delta = some s') ∨
      SavedTail.capture a.table.entries a.table.frontier e.oldStop e.delta = some s' := by
  have h : (if a.table.frontier.any (fun f => f.offset ≤ e.pos) then
      a.saved.bind (·.adjust e.oldStop e.delta)
    else SavedTail.capture a.table.entries a.table.frontier e.oldStop e.delta) = some s' := h
  split at h
  · exact .inl (Option.bind_eq_some_iff.1 h)
  · exact .inr h

/-- **An edit that is not overlooked keeps the analysis faithful.** -/
theorem Faithful.invalidate (h : a.Faithful lex text) (hlocal : lex.LineLocal)
    (hedit : Edited text doc.chars e) (hnot : ¬a.Overlooks lex doc e) :
    (a.invalidate doc e).Faithful lex doc.chars := by
  have hcut := hedit.cutAt
  refine ⟨?_, ?_⟩
  · by_cases hpast : ∃ f, a.table.frontier = some f ∧ f.offset ≤ doc.lineStart e.pos
    · obtain ⟨f, hf, hle⟩ := hpast
      rw [invalidate_table_of_past hf hle]
      refine h.table.unmoved hlocal hcut hf hle ?_
      intro b hlast hb hat
      exact Classical.byContradiction fun hmissing => hnot ⟨f, b, hf, hat, hlast, hb, hmissing⟩
    · rw [invalidate_table_of_not_past hpast]
      exact h.table.truncate hlocal hcut
  · intro s' hs'
    rcases invalidate_saved hs' with ⟨s, hs, hadjust⟩ | hcapture
    · obtain ⟨og, hfits⟩ := h.saved s hs
      obtain ⟨l₁, l₂, -, -, hfits'⟩ := hfits.adjust hedit hadjust
      exact ⟨_, hfits'⟩
    · obtain ⟨front, tail, -, -, hfits⟩ := h.table.capture hedit hcapture
      exact ⟨_, hfits⟩

/-- After an edit that is overlooked the table has a boundary that the text has not. -/
theorem Overlooks.stale (h : a.Overlooks lex doc e) :
    ∃ b ∈ (a.invalidate doc e).table.entries, b ∉ lex.boundaries doc.chars 0 .outside := by
  obtain ⟨f, b, hf, hat, hlast, -, hmissing⟩ := h
  rw [invalidate_table_of_past hf (Nat.le_of_eq hat)]
  exact ⟨b, List.mem_of_getLast? hlast, hmissing⟩

/-- Building only adds boundaries. -/
theorem build_entries {limit : Nat} {report : BuildReport}
    (h : a.build lex doc limit = some (a', report)) :
    ∃ more, a'.table.entries = a.table.entries ++ more := by
  cases hf : a.table.frontier with
  | none =>
      rw [build_of_none hf] at h
      exact absurd h.symm (Option.some_ne_none _)
  | some f =>
      rcases a.build_cases lex doc limit hf rfl with ⟨-, hbuild⟩ | ⟨stop, -, -, -, hbuild⟩
      · obtain ⟨rfl, -⟩ := Prod.mk.inj (Option.some.inj (h.symm.trans hbuild))
        exact ⟨[], (List.append_nil _).symm⟩
      · have hconcluded := Option.some.inj (h.symm.trans hbuild)
        generalize scanBatch lex _ _ _ _ f.state a.saved = result at hconcluded
        obtain ⟨found, ending⟩ := result
        cases ending with
        | spliced offset behind frontier =>
            obtain ⟨rfl, -⟩ := Prod.mk.inj hconcluded
            exact ⟨_, List.append_assoc _ _ _⟩
        | reached pos state saved =>
            obtain ⟨rfl, -⟩ := Prod.mk.inj hconcluded
            exact ⟨_, rfl⟩

/-- Building only adds boundaries. -/
theorem buildAll_entries (lex : Lexicon) (doc : Document) (a : Analysis) (limits : List Nat) :
    ∃ more, (a.buildAll lex doc limits).1.table.entries = a.table.entries ++ more := by
  induction limits generalizing a with
  | nil => exact ⟨[], (List.append_nil _).symm⟩
  | cons limit limits ih =>
      rw [Analysis.buildAll]
      cases hbuild : a.build lex doc limit with
      | none => exact ⟨[], (List.append_nil _).symm⟩
      | some result =>
          obtain ⟨a', report⟩ := result
          obtain ⟨more, hmore⟩ := build_entries hbuild
          obtain ⟨more', hmore'⟩ := ih a'
          refine ⟨more ++ more', ?_⟩
          show (a'.buildAll lex doc limits).1.table.entries = _
          rw [hmore', hmore, List.append_assoc]

/-! ## Runs -/

/-- One move of a run: a change of the text that cuts the table back, or a call of `build`. -/
inductive Move where
  | change (c : Change)
  | build (limit : Nat)

namespace Move

/-- A text and its analysis after a move. -/
def apply (lex : Lexicon) (s : Document × Analysis) : Move → Document × Analysis
  | .change c => (c.apply s.1, s.2.invalidate (c.apply s.1) (c.edit s.1))
  | .build limit => (s.1, ((s.2.build lex s.1 limit).map (·.1)).getD s.2)

/-- The move is a change that the analysis overlooks. -/
def Overlooked (lex : Lexicon) (s : Document × Analysis) : Move → Prop
  | .change c => s.2.Overlooks lex (c.apply s.1) (c.edit s.1)
  | .build _ => False

end Move

/-- A text and its analysis after some moves. -/
def run (lex : Lexicon) (s : Document × Analysis) (moves : List Move) : Document × Analysis :=
  moves.foldl (Move.apply lex) s

/-- Whatever the limits, building on comes to an end with the boundaries of one scan. -/
def Completes (lex : Lexicon) (s : Document × Analysis) : Prop :=
  ∀ limits : Nat → Nat, ∃ calls,
    (s.2.buildAll lex s.1 ((List.range calls).map limits)).1.table =
      { entries := lex.boundaries s.1.chars 0 .outside, frontier := none }

/-- A move that is not overlooked keeps the analysis faithful. -/
theorem Faithful.move (hlocal : lex.LineLocal) (hstops : lex.StopsUnescaped)
    {s : Document × Analysis} (h : s.2.Faithful lex s.1.chars) {m : Move}
    (hnot : ¬m.Overlooked lex s) : (m.apply lex s).2.Faithful lex (m.apply lex s).1.chars := by
  cases m with
  | change c => exact h.invalidate hlocal (c.edited s.1) hnot
  | build limit =>
      show (((s.2.build lex s.1 limit).map (·.1)).getD s.2).Faithful lex s.1.chars
      cases hf : s.2.table.frontier with
      | none =>
          rw [build_of_none hf]
          exact h
      | some f =>
          obtain ⟨a', report, hbuild, hbatch⟩ :=
            build_batch hlocal s.1 s.2 limit hf (s.1.length_eq ▸ h.table.frontier_le hf)
          rw [hbuild]
          exact h.batch hlocal hstops hf hbatch

/-- A run with nothing overlooked keeps the analysis faithful. -/
theorem Faithful.run (hlocal : lex.LineLocal) (hstops : lex.StopsUnescaped) (moves : List Move)
    {s : Document × Analysis} (h : s.2.Faithful lex s.1.chars)
    (hnot : ∀ before m, before ++ [m] <+: moves → ¬m.Overlooked lex (run lex s before)) :
    (run lex s moves).2.Faithful lex (run lex s moves).1.chars := by
  induction moves generalizing s with
  | nil => exact h
  | cons m moves ih =>
      refine ih (s := m.apply lex s) (h.move hlocal hstops ?_) ?_
      · exact hnot [] m (by simp)
      · intro before m' hbefore
        exact hnot (m :: before) m' (by simpa using hbefore)

/-- A faithful analysis comes to an end with the boundaries of one scan. -/
theorem Faithful.completes (hlocal : lex.LineLocal) (hstops : lex.StopsUnescaped)
    {s : Document × Analysis} (h : s.2.Faithful lex s.1.chars) : Completes lex s := by
  intro limits
  have hsound := h.sound hlocal hstops
  have hcomplete := hsound.buildAll_complete hlocal
    ((List.range (s.2.callsLeft s.1)).map limits) (by simp)
  have hholds := (hsound.buildAll hlocal ((List.range (s.2.callsLeft s.1)).map limits)).table
  rw [BoundaryTable.Holds, hcomplete] at hholds
  exact ⟨_, by rw [← hholds, ← hcomplete]⟩

/-- A change that is overlooked is never made good. -/
theorem Overlooks.not_completes {c : Change} {s : Document × Analysis}
    (h : s.2.Overlooks lex (c.apply s.1) (c.edit s.1)) :
    ¬Completes lex (Move.apply lex s (.change c)) := by
  intro hcompletes
  obtain ⟨b, hb, hmissing⟩ := h.stale
  obtain ⟨calls, htable⟩ := hcompletes fun _ => 0
  obtain ⟨more, hmore⟩ := buildAll_entries lex (c.apply s.1)
    (s.2.invalidate (c.apply s.1) (c.edit s.1)) ((List.range calls).map fun _ => 0)
  have hentries : _ = lex.boundaries (c.apply s.1).chars 0 .outside :=
    hmore.symm.trans (congrArg BoundaryTable.entries htable)
  rw [← hentries] at hmissing
  exact hmissing (List.mem_append_left _ hb)

/-- **What cutting back can get wrong, and nothing else.**  From a fresh analysis, every stretch of
    a run of changes and calls of `build` can be built on to the boundaries of one scan exactly
    when the run has no change that is overlooked. -/
theorem completes_iff_not_overlooked (hlocal : lex.LineLocal) (hstops : lex.StopsUnescaped)
    (doc : Document) (moves : List Move) :
    (∀ before, before <+: moves → Completes lex (run lex (doc, fresh) before)) ↔
      ∀ before m, before ++ [m] <+: moves → ¬m.Overlooked lex (run lex (doc, fresh) before) := by
  have hfresh : fresh.Faithful lex doc.chars := faithful_fresh lex doc.chars
  constructor
  · intro hall before m hbefore hoverlooked
    have hcompletes := hall _ hbefore
    rw [run, List.foldl_append] at hcompletes
    cases m with
    | change c => exact Overlooks.not_completes hoverlooked hcompletes
    | build limit => exact hoverlooked
  · intro hnot before hbefore
    refine Faithful.completes hlocal hstops (Faithful.run hlocal hstops before hfresh ?_)
    exact fun before' m h => hnot before' m (h.trans hbefore)

/-- Between two batches a backslash goes, and the list closes sooner. -/
theorem completes_iff_not_overlooked_lisp : (Lexicon.ofGrammar .lisp).LineLocal ∧
    (Lexicon.ofGrammar .lisp).StopsUnescaped ∧
    ((∀ before, before <+: [Move.build 1, .change (.delete ⟨1, 2⟩), .build 9] →
        Completes (.ofGrammar .lisp) (run (.ofGrammar .lisp) (.escapedList, fresh) before)) ↔
      ∀ before m, before ++ [m] <+: [Move.build 1, .change (.delete ⟨1, 2⟩), .build 9] →
        ¬m.Overlooked (.ofGrammar .lisp) (run (.ofGrammar .lisp) (.escapedList, fresh) before)) :=
  ⟨Grammar.lineLocal_lisp, Lexicon.stopsUnescaped_lisp,
    completes_iff_not_overlooked Grammar.lineLocal_lisp Lexicon.stopsUnescaped_lisp _ _⟩

end Analysis

end Highlighter
