import Highlighter.Lexicon
import Highlighter.Proofs.LineLocal

/-! # Delimiters — what begins at a position

    A scan looks for the next delimiter, and each search behind it answers the least
    position at which something holds.  So a step is settled position by position:
    `delimiterAt?` tells which delimiter begins at a position in a state, if any, and the
    step of a scan is the first of them (`step_eq_firstFrom`).

    For line-local patterns what begins at a position is a matter of the line, and of
    the run of escape chars before it (`delimiterAt?_congr`). -/

namespace Highlighter

variable {text : Array Char}

/-- The match of a pattern that begins at a position and is not escaped. -/
def unescapedAt? (text : Array Char) (escape : Option Char) (r : Matcher) (q : Nat) :
    Option Extent :=
  if escape.any fun e => isEscaped text e q then none
  else (r.endAt? text q).map (Extent.mk q)

/-- A match at a position begins there. -/
theorem unescapedAt?_start {escape : Option Char} {r : Matcher} {q : Nat} {m : Extent}
    (h : unescapedAt? text escape r q = some m) : m.start = q := by
  unfold unescapedAt? at h
  split at h
  · exact absurd h (Option.some_ne_none m).symm
  · obtain ⟨e, -, rfl⟩ := Option.map_eq_some_iff.1 h
    rfl

/-- A search past escapes answers the match at the least position that is not escaped. -/
theorem nextUnescaped_eq_firstFrom {r : Matcher} (hr : r.Lawful) (escape : Option Char) (p : Nat) :
    nextUnescaped text escape r p = firstFrom (unescapedAt? text escape r) p text.size := by
  have hnone : ∀ {i}, (r.endAt? text i).map (Extent.mk i) = none →
      unescapedAt? text escape r i = none := by
    intro i hi
    unfold unescapedAt?
    rw [hi, ite_self]
  fun_induction nextUnescaped text escape r p with
  | case1 p h =>
      rw [hr.find?_eq_firstFrom, firstFrom_eq_none_iff] at h
      exact (firstFrom_eq_none_iff.2 fun i hp hn => hnone (h i hp hn)).symm
  | case2 p m h hescaped ih =>
      rw [hr.find?_eq_firstFrom] at h
      obtain ⟨q, hpq, hqn, hq, hbefore⟩ := firstFrom_eq_some h
      obtain ⟨e, -, rfl⟩ := Option.map_eq_some_iff.1 hq
      -- an escaped match is no answer, and before it there is no match at all
      rw [ih]
      refine (firstFrom_skip (Nat.le_succ_of_le hpq) ?_).symm
      intro i hi hlt
      rcases Nat.lt_succ_iff_lt_or_eq.1 hlt with hlt | rfl
      · exact hnone (hbefore i hi hlt)
      · exact if_pos hescaped
  | case3 p m h hplain =>
      rw [hr.find?_eq_firstFrom] at h
      obtain ⟨q, hpq, hqn, hq, hbefore⟩ := firstFrom_eq_some h
      obtain ⟨e, -, rfl⟩ := Option.map_eq_some_iff.1 hq
      have hhere : unescapedAt? text escape r q = some ⟨q, e⟩ := by
        unfold unescapedAt?
        rw [if_neg hplain, hq]
      rw [firstFrom_skip hpq fun i hi hlt => hnone (hbefore i hi hlt), firstFrom_of_some hqn hhere]

namespace Lexicon

variable (lex : Lexicon) (text : Array Char)

/-! ## What begins at a position -/

/-- An odd run of escape chars hides what begins at the position. -/
def hides (q : Nat) : Bool := lex.escape.any fun e => isEscaped text e q

/-- The region that opens at a position, if the merged pattern sees it and nothing hides it. -/
def startAt? (q : Nat) : Option RegionStart :=
  if lex.hides text q ∨ lex.merged.any fun r => (r.endAt? text q).isNone then none
  else firstStartAt? text q 0 lex.regions

/-- The end of a region that begins at a position, unless it is hidden. -/
def stopAt? (tag q : Nat) : Option Extent :=
  if lex.hides text q then none
  else (lex.region? tag).bind fun d => (d.stop.endAt? text q).map (Extent.mk q)

/-- The delimiter that begins at a position in a state: its length, and the state after it. -/
def delimiterAt? (q : Nat) : ScanState → Option (Nat × ScanState)
  | .outside => (lex.startAt? text q).map fun m => (m.stop - q, .inside m.tag)
  | .inside tag => (lex.stopAt? text tag q).map fun m => (m.stop - q, .outside)

/-- The patterns of regions are lawful, and the merged one is. -/
structure Lawful (lex : Lexicon) : Prop where
  starts : ∀ d ∈ lex.regions, d.start.Lawful
  stops  : ∀ d ∈ lex.regions, d.stop.Lawful
  merged : ∀ r, lex.merged = some r → r.Lawful

/-- The step over a delimiter that begins at a position. -/
def stepOver (q : Nat) (d : Nat × ScanState) : Step :=
  match d with
  | (n, .outside) => ⟨q, q + n, q + n, .outside⟩
  | (n, .inside tag) => ⟨q, q, q + n, .inside tag⟩

variable {lex text}

/-- A start is a match of one of the definitions. -/
theorem firstStartAt?_isSome_of {p tag : Nat} {ds : List RegionDef} {m : RegionStart}
    (h : firstStartAt? text p tag ds = some m) :
    ∃ d ∈ ds, (d.start.endAt? text p).isSome = true := by
  induction ds generalizing tag with
  | nil => exact absurd h (Option.some_ne_none m).symm
  | cons d rest ih =>
      rw [firstStartAt?_cons] at h
      cases hq : d.start.endAt? text p with
      | some q => exact ⟨d, List.mem_cons_self, by rw [hq]; rfl⟩
      | none =>
          rw [hq] at h
          obtain ⟨d', hd', hsome⟩ := ih h
          exact ⟨d', List.mem_cons_of_mem d hd', hsome⟩

/-- A region begins where no escape hides it, where the merged pattern sees it, and with the first
    definition that matches. -/
theorem startAt?_eq_some {q : Nat} {m : RegionStart} (h : lex.startAt? text q = some m) :
    lex.hides text q = false ∧ (∀ r, lex.merged = some r → (r.endAt? text q).isSome = true) ∧
      firstStartAt? text q 0 lex.regions = some m := by
  unfold startAt? at h
  split at h
  · exact absurd h (Option.some_ne_none m).symm
  · rename_i hfree
    obtain ⟨hplain, hseen⟩ := not_or.1 hfree
    refine ⟨Bool.eq_false_iff.2 hplain, ?_, h⟩
    intro r hr
    rw [hr, Option.any_some] at hseen
    cases h : r.endAt? text q with
    | none => exact absurd (by rw [h]; rfl) hseen
    | some e => rfl

/-- A match that begins where nothing hides it is not escaped. -/
theorem unescapedAt?_of_not_hides {r : Matcher} {q e : Nat} (h : lex.hides text q = false)
    (he : r.endAt? text q = some e) : unescapedAt? text lex.escape r q = some ⟨q, e⟩ := by
  have hplain : ¬(lex.escape.any fun e => isEscaped text e q) = true := Bool.eq_false_iff.1 h
  unfold unescapedAt?
  rw [if_neg hplain, he]
  rfl

/-- A match that counts is one that no escape hides. -/
theorem not_hides_of_unescapedAt? {r : Matcher} {q : Nat} {m : Extent}
    (h : unescapedAt? text lex.escape r q = some m) :
    lex.hides text q = false ∧ (r.endAt? text q).isSome = true := by
  unfold unescapedAt? at h
  split at h
  · exact absurd h (Option.some_ne_none m).symm
  · rename_i hplain
    obtain ⟨e, he, -⟩ := Option.map_eq_some_iff.1 h
    exact ⟨Bool.eq_false_iff.2 hplain, by rw [he]; rfl⟩

/-- Where a region opens there is a candidate, there or before. -/
theorem exists_candidate (hlawful : lex.Lawful) {p q : Nat} {m : RegionStart} (hpq : p ≤ q)
    (hq : q ≤ text.size) (h : lex.startAt? text q = some m) :
    ∃ c, lex.candidate? text p = some c ∧ c ≤ q := by
  obtain ⟨hplain, hmerged, hstart⟩ := startAt?_eq_some h
  have hfind : ∀ r : Matcher, r.Lawful → (r.endAt? text q).isSome = true →
      ∃ m, nextUnescaped text lex.escape r p = some m ∧ m.start ≤ q := by
    intro r hlaw hr
    obtain ⟨e, he⟩ := Option.isSome_iff_exists.1 hr
    obtain ⟨i, m, hm, hi, him⟩ :=
      exists_firstFrom hpq hq (unescapedAt?_of_not_hides hplain he)
    refine ⟨m, (nextUnescaped_eq_firstFrom hlaw lex.escape p).trans hm, ?_⟩
    rw [unescapedAt?_start him]
    exact hi
  unfold candidate?
  -- the merged pattern finds the candidate; without it, whichever pattern finds something first
  cases hm : lex.merged with
  | some r =>
      obtain ⟨m', hm', hle⟩ := hfind r (hlawful.merged r hm) (hmerged r hm)
      exact ⟨m'.start, by simp only [hm', Option.map_some], hle⟩
  | none =>
      obtain ⟨d, hd, hsome⟩ := firstStartAt?_isSome_of hstart
      obtain ⟨m', hm', hle⟩ := hfind d.start (hlawful.starts d hd) hsome
      have hmem : m'.start ∈ lex.regions.filterMap fun d =>
          (nextUnescaped text lex.escape d.start p).map (·.start) :=
        List.mem_filterMap.2 ⟨d, hd, by rw [hm']; rfl⟩
      cases hmin : lex.leastStart? text p with
      | none =>
          rw [leastStart?, List.min?_eq_none_iff] at hmin
          rw [hmin] at hmem
          exact absurd hmem List.not_mem_nil
      | some c =>
          have hleast := (List.min?_eq_some_iff.1 hmin).2 _ hmem
          exact ⟨c, rfl, Nat.le_trans hleast hle⟩

/-- Nothing hides a candidate, and the merged pattern sees it. -/
theorem startAt?_candidate (hlawful : lex.Lawful) {p c : Nat} (h : lex.candidate? text p = some c) :
    lex.startAt? text c = firstStartAt? text c 0 lex.regions := by
  have hfound : ∀ {r : Matcher} {m : Extent}, r.Lawful → nextUnescaped text lex.escape r p = some m →
      lex.hides text m.start = false ∧ (r.endAt? text m.start).isSome = true := by
    intro r m hlaw hm
    rw [nextUnescaped_eq_firstFrom hlaw] at hm
    obtain ⟨q, -, -, hq, -⟩ := firstFrom_eq_some hm
    rw [unescapedAt?_start hq]
    exact not_hides_of_unescapedAt? hq
  unfold startAt?
  unfold candidate? at h
  cases hmerged : lex.merged with
  | some r =>
      simp only [hmerged] at h
      obtain ⟨m, hm, rfl⟩ := Option.map_eq_some_iff.1 h
      obtain ⟨hplain, hsome⟩ := hfound (hlawful.merged _ hmerged) hm
      rw [if_neg]
      rintro (hhides | hnone)
      · exact absurd hhides (Bool.eq_false_iff.1 hplain)
      · rw [Option.any_some, ← Option.not_isSome, hsome] at hnone
        exact absurd hnone (by decide)
  | none =>
      simp only [hmerged] at h
      obtain ⟨d, hmem, hd⟩ := List.mem_filterMap.1 (List.min?_mem h)
      obtain ⟨m, hm, rfl⟩ := Option.map_eq_some_iff.1 hd
      rw [if_neg]
      rintro (hhides | hnone)
      · exact absurd hhides (Bool.eq_false_iff.1 (hfound (hlawful.starts d hmem) hm).1)
      · exact absurd hnone Bool.false_ne_true

/-! ## Steps, position by position -/

/-- The next region start is the first position at which a region opens. -/
theorem findStart_eq_firstFrom (hlawful : lex.Lawful) (p : Nat) :
    lex.findStart text p = firstFrom (lex.startAt? text) p text.size := by
  have hskip : ∀ {p c i : Nat}, lex.candidate? text p = some c → p ≤ i → i < c →
      lex.startAt? text i = none := by
    intro p c i hc hi hlt
    have hbound := candidate?_bounds hc
    cases hstart : lex.startAt? text i with
    | none => rfl
    | some m =>
        obtain ⟨c', hc', hle⟩ := exists_candidate hlawful hi (by omega) hstart
        obtain rfl := Option.some.inj (hc.symm.trans hc')
        omega
  fun_induction findStart lex text p with
  | case1 p h =>
      refine (firstFrom_eq_none_iff.2 ?_).symm
      intro i hi hn
      cases hstart : lex.startAt? text i with
      | none => rfl
      | some m =>
          obtain ⟨c, hc, -⟩ := exists_candidate hlawful hi hn hstart
          rw [h] at hc
          exact absurd hc (Option.some_ne_none c).symm
  | case2 p c hc m hm =>
      have hbound := candidate?_bounds hc
      rw [firstFrom_skip hbound.1 fun i hi hlt => hskip hc hi hlt]
      exact (firstFrom_of_some hbound.2 ((startAt?_candidate hlawful hc).trans hm)).symm
  | case3 p c hc hm ih =>
      have hbound := candidate?_bounds hc
      -- the merged pattern matches here, but no region opens: the search goes on one position later
      rw [ih, firstFrom_skip hbound.1 fun i hi hlt => hskip hc hi hlt]
      exact (firstFrom_of_none ((startAt?_candidate hlawful hc).trans hm)).symm

/-- A region begins where it is asked for, and with a char. -/
theorem startAt?_bounds {q : Nat} {m : RegionStart} (h : lex.startAt? text q = some m) :
    m.start = q ∧ q < m.stop ∧ m.stop ≤ text.size :=
  firstStartAt?_bounds (startAt?_eq_some h).2.2

/-- The closing pattern is found at the least position where it counts. -/
theorem findStop_eq_firstFrom (hlawful : lex.Lawful) (tag p : Nat) :
    lex.findStop text tag p = firstFrom (lex.stopAt? text tag) p text.size := by
  show (lex.region? tag).bind (fun d => nextUnescaped text lex.escape d.stop p) = _
  cases hd : lex.region? tag with
  | none =>
      refine (firstFrom_eq_none_iff.2 ?_).symm
      intro i _ _
      unfold stopAt?
      rw [hd, Option.bind_none, ite_self]
  | some d =>
      have hmem : d ∈ lex.regions := List.mem_of_getElem? hd
      rw [Option.bind_some, nextUnescaped_eq_firstFrom (hlawful.stops d hmem)]
      refine congrArg (fun f => firstFrom f p text.size) (funext ?_)
      intro i
      unfold stopAt?
      rw [hd, Option.bind_some]
      rfl

/-- A closing match lies where it is asked for, and may be empty. -/
theorem stopAt?_bounds {tag q : Nat} {m : Extent} (h : lex.stopAt? text tag q = some m) :
    m.start = q ∧ q ≤ m.stop ∧ m.stop ≤ text.size := by
  unfold stopAt? at h
  split at h
  · exact absurd h (Option.some_ne_none m).symm
  · obtain ⟨d, -, hd⟩ := Option.bind_eq_some_iff.1 h
    obtain ⟨e, he, rfl⟩ := Option.map_eq_some_iff.1 hd
    exact ⟨rfl, Matcher.endAt?_bounds he⟩

/-- **A step is the first delimiter** at or after its position. -/
theorem step_eq_firstFrom (hlawful : lex.Lawful) (p : Nat) (state : ScanState) :
    lex.step text p state =
      firstFrom (fun q => (lex.delimiterAt? text q state).map (stepOver q)) p text.size := by
  cases state with
  | outside =>
      show (lex.findStart text p).map _ = _
      rw [findStart_eq_firstFrom hlawful, map_firstFrom]
      refine firstFrom_congr ?_
      intro q _ hq
      cases h : lex.startAt? text q with
      | none =>
          show none = ((lex.startAt? text q).map _).map _
          rw [h]
          rfl
      | some m =>
          have hm := startAt?_bounds h
          have hstop : q + (m.stop - q) = m.stop := by omega
          show some (Step.mk m.start m.start m.stop (.inside m.tag)) =
            ((lex.startAt? text q).map _).map _
          rw [h, Option.map_some, Option.map_some, hm.1]
          simp only [stepOver, hstop]
  | inside tag =>
      show (lex.findStop text tag p).map _ = _
      rw [findStop_eq_firstFrom hlawful, map_firstFrom]
      refine firstFrom_congr ?_
      intro q _ hq
      cases h : lex.stopAt? text tag q with
      | none =>
          show none = ((lex.stopAt? text tag q).map _).map _
          rw [h]
          rfl
      | some m =>
          have hm := stopAt?_bounds h
          have hstop : q + (m.stop - q) = m.stop := by omega
          show some (Step.mk m.start m.stop m.stop .outside) =
            ((lex.stopAt? text tag q).map _).map _
          rw [h, Option.map_some, Option.map_some, hm.1]
          simp only [stepOver, hstop]

/-- A delimiter stays inside the text, and one that opens a region has a char. -/
theorem delimiterAt?_bounds {q : Nat} {state : ScanState} {d : Nat × ScanState}
    (h : lex.delimiterAt? text q state = some d) :
    q + d.1 ≤ text.size ∧ (state = .outside → 0 < d.1) ∧ (state = .outside ↔ d.2 ≠ .outside) := by
  cases state with
  | outside =>
      obtain ⟨m, hm, rfl⟩ := Option.map_eq_some_iff.1 h
      have hbound := startAt?_bounds hm
      exact ⟨by simp only; omega, fun _ => by simp only; omega,
        ⟨fun _ => ScanState.noConfusion, fun _ => rfl⟩⟩
  | inside tag =>
      obtain ⟨m, hm, rfl⟩ := Option.map_eq_some_iff.1 h
      have hbound := stopAt?_bounds hm
      exact ⟨by simp only; omega, fun h => ScanState.noConfusion h,
        ⟨fun h => ScanState.noConfusion h, fun h => absurd rfl h⟩⟩

/-! ## Escapes along a text -/

/-- No escape stands before the text. -/
theorem hides_zero : lex.hides text 0 = false := by
  unfold hides
  cases lex.escape <;> rfl

/-- A char hides what follows it when it is the escape char and is not hidden itself. -/
theorem hides_succ (q : Nat) :
    lex.hides text (q + 1) =
      (lex.escape.any (fun e => text[q]? == some e) && !lex.hides text q) := by
  unfold hides
  cases lex.escape with
  | none => rfl
  | some e =>
      rw [Option.any_some, Option.any_some, Option.any_some]
      show (escapeRun text e (q + 1) % 2 == 1) = (_ && !(escapeRun text e q % 2 == 1))
      rw [escapeRun]
      -- an escape char makes the run one longer, any other char ends it
      by_cases hq : text[q]? = some e
      · rw [if_pos hq, hq, beq_self_eq_true, Bool.true_and, Bool.eq_iff_iff]
        rw [beq_iff_eq, Bool.not_eq_true', beq_eq_false_iff_ne]
        omega
      · rw [if_neg hq, beq_eq_false_iff_ne.2 hq, Bool.false_and]
        rfl

/-- What is hidden depends on the chars since any place where that is known. -/
theorem hides_add {text' : Array Char} {p p' n : Nat} (h : lex.hides text p = lex.hides text' p')
    (hagree : ∀ i < n, text[p + i]? = text'[p' + i]?) :
    lex.hides text (p + n) = lex.hides text' (p' + n) := by
  induction n with
  | zero => exact h
  | succ n ih =>
      rw [← Nat.add_assoc, ← Nat.add_assoc, hides_succ, hides_succ, hagree n (Nat.lt_succ_self n)]
      rw [ih fun i hi => hagree i (Nat.lt_succ_of_lt hi)]

/-! ## Line-local lexicons -/

/-- The patterns of regions are line-local, the merged one is lawful, and no newline escapes. -/
structure LineLocal (lex : Lexicon) : Prop where
  starts : ∀ d ∈ lex.regions, d.start.LineLocal
  stops  : ∀ d ∈ lex.regions, d.stop.LineLocal
  lawful : ∀ r, lex.merged = some r → r.Lawful
  /-- Where an opening pattern takes some chars, whether the merged one sees that is a matter of the
      line.  The sources of the patterns are merged as texts, so a comment at the end of one can
      take in the next, and the merged pattern is not always their alternation. -/
  merged : ∀ r, lex.merged = some r → ∀ {text text' : Array Char} {p p' : Nat}, p ≤ text.size →
    p' ≤ text'.size → SameLine text p text' p' →
      (firstStartAt? text p 0 lex.regions).isSome = true →
        (r.endAt? text p).isSome = (r.endAt? text' p').isSome
  escape : lex.escape ≠ some '\n'

/-- Line-local patterns are lawful. -/
theorem LineLocal.isLawful (h : lex.LineLocal) : lex.Lawful where
  starts := fun d hd => (h.starts d hd).toLawful
  stops := fun d hd => (h.stops d hd).toLawful
  merged := h.lawful

/-- Two positions look alike to the search for delimiters. -/
structure Alike (lex : Lexicon) (text : Array Char) (p : Nat) (text' : Array Char) (p' : Nat) :
    Prop where
  size  : p ≤ text.size
  size' : p' ≤ text'.size
  line  : SameLine text p text' p'
  hides : lex.hides text p = lex.hides text' p'

variable {text' : Array Char} {p p' : Nat}

/-- Nothing on the line before hides what begins at a line start. -/
theorem hides_of_isLineStart (hlocal : lex.LineLocal) (hp : IsLineStart text p)
    (hsize : p ≤ text.size) : lex.hides text p = false := by
  cases p with
  | zero => exact hides_zero
  | succ q =>
      have hnl : text[q]? = some '\n' := hp.getElem? (Nat.succ_pos q) hsize
      rw [hides_succ, hnl]
      have hnone : lex.escape.any (fun e => some '\n' == some e) = false := by
        have hne := hlocal.escape
        cases hescape : lex.escape with
        | none => rfl
        | some e =>
            rw [hescape] at hne
            rw [Option.any_some]
            exact beq_eq_false_iff_ne.2 fun h => hne h.symm
      rw [hnone, Bool.false_and]

/-- Texts that agree from a pair of positions up to the end of a line look alike in between. -/
theorem Alike.of_agree {n i : Nat} (hbefore : charBefore text p = charBefore text' p')
    (hhides : lex.hides text p = lex.hides text' p')
    (hagree : ∀ i ≤ n, text[p + i]? = text'[p' + i]?) (hend : AtLineEnd text (p + n))
    (hsize : p + i ≤ text.size) (hsize' : p' + i ≤ text'.size) (hi : i ≤ n) :
    lex.Alike text (p + i) text' (p' + i) := by
  refine ⟨hsize, hsize', SameLine.of_agree (n := n - i) ?_ ?_ ?_, ?_⟩
  · cases i with
    | zero => exact hbefore
    | succ i =>
        show text[p + i]?.getD '\n' = text'[p' + i]?.getD '\n'
        rw [hagree i (Nat.le_of_succ_le hi)]
  · intro j hj
    have := hagree (i + j) (by omega)
    rwa [← Nat.add_assoc, ← Nat.add_assoc] at this
  · have hadd : p + i + (n - i) = p + n := by omega
    rwa [hadd]
  · exact hides_add hhides fun j hj => hagree j (by omega)

/-- Positions that see the same line have the same start, by its length and its tag. -/
theorem firstStartAt?_congr {ds : List RegionDef} (tag : Nat)
    (hlocal : ∀ d ∈ ds, d.start.LineLocal) (hp : p ≤ text.size) (hp' : p' ≤ text'.size)
    (hsame : SameLine text p text' p') :
    (firstStartAt? text p tag ds).map (fun m => (m.stop - p, m.tag)) =
      (firstStartAt? text' p' tag ds).map (fun m => (m.stop - p', m.tag)) := by
  induction ds generalizing tag with
  | nil => rfl
  | cons d rest ih =>
      have hrest := ih (tag + 1) fun d' hd' => hlocal d' (List.mem_cons_of_mem d hd')
      have hd := (hlocal d List.mem_cons_self).depends hp hp' hsame
      rw [firstStartAt?_cons, firstStartAt?_cons]
      cases hq : d.start.endAt? text p with
      | none =>
          rw [hq] at hd
          rw [Option.map_eq_none_iff.1 hd.symm]
          exact hrest
      | some q =>
          rw [hq] at hd
          obtain ⟨q', hq', hlen⟩ := Option.map_eq_some_iff.1 hd.symm
          have hle := (Matcher.endAt?_bounds hq).1
          have hle' := (Matcher.endAt?_bounds hq').1
          have hlen : q' - p' = q - p := hlen
          rw [hq']
          simp only
          by_cases hlt : p < q
          · have hlt' : p' < q' := by omega
            rw [if_pos hlt, if_pos hlt', Option.map_some, Option.map_some, hlen]
          · have hlt' : ¬p' < q' := by omega
            rw [if_neg hlt, if_neg hlt']
            exact hrest

/-- **What begins at a position is a matter of its line** and of what hides it. -/
theorem delimiterAt?_congr (hlocal : lex.LineLocal) (h : lex.Alike text p text' p')
    (state : ScanState) : lex.delimiterAt? text p state = lex.delimiterAt? text' p' state := by
  cases state with
  | outside =>
      show (lex.startAt? text p).map _ = (lex.startAt? text' p').map _
      have hstart := congrArg (Option.map fun m : Nat × Nat => (m.1, ScanState.inside m.2))
        (firstStartAt?_congr 0 hlocal.starts h.size h.size' h.line)
      rw [Option.map_map, Option.map_map] at hstart
      rw [startAt?, startAt?, h.hides]
      cases hfirst : firstStartAt? text p 0 lex.regions with
      | none =>
          rw [hfirst, Option.map_none] at hstart
          rw [Option.map_eq_none_iff.1 hstart.symm, ite_self, ite_self]
          rfl
      | some m =>
          -- only where some opening pattern takes chars is the merged one known to see them
          have hmerged : (lex.merged.any fun r => (r.endAt? text p).isNone) =
              lex.merged.any fun r => (r.endAt? text' p').isNone := by
            cases hr : lex.merged with
            | none => rfl
            | some r =>
                have hsome : (firstStartAt? text p 0 lex.regions).isSome = true := by rw [hfirst]; rfl
                rw [Option.any_some, Option.any_some, ← Option.not_isSome, ← Option.not_isSome,
                  hlocal.merged r hr h.size h.size' h.line hsome]
          rw [hmerged, ← hfirst]
          split
          · rfl
          · exact hstart
  | inside tag =>
      show (lex.stopAt? text tag p).map _ = (lex.stopAt? text' tag p').map _
      unfold stopAt?
      rw [h.hides]
      split
      · rfl
      · cases hd : lex.region? tag with
        | none => rfl
        | some d =>
            have hmem : d ∈ lex.regions := List.mem_of_getElem? hd
            have hstop := congrArg (Option.map fun n => (n, ScanState.outside))
              ((hlocal.stops d hmem).depends h.size h.size' h.line)
            rw [Option.map_map, Option.map_map] at hstop
            rw [Option.bind_some, Option.bind_some, Option.map_map, Option.map_map]
            exact hstop

/-- The merged pattern sees every opening, as an alternation of the opening patterns does. -/
def MergesAll (lex : Lexicon) : Prop :=
  ∀ r, lex.merged = some r → ∀ (text : Array Char) (p : Nat), p ≤ text.size →
    (firstStartAt? text p 0 lex.regions).isSome = true → (r.endAt? text p).isSome = true

/-- With a merged pattern that is an alternation, the patterns of regions are all that counts. -/
theorem lineLocal_of_mergesAll (hmerges : lex.MergesAll)
    (hlawful : ∀ r, lex.merged = some r → r.Lawful)
    (hstarts : ∀ d ∈ lex.regions, d.start.LineLocal) (hstops : ∀ d ∈ lex.regions, d.stop.LineLocal)
    (hescape : lex.escape ≠ some '\n') : lex.LineLocal where
  starts := hstarts
  stops := hstops
  lawful := hlawful
  merged := fun r hr {text text' p p'} hp hp' hsame hfirst => by
    -- a region that opens in one text opens in the other, so both are seen
    have hfirst' : (firstStartAt? text' p' 0 lex.regions).isSome = true := by
      have hcongr := congrArg Option.isSome (firstStartAt?_congr 0 hstarts hp hp' hsame)
      rw [Option.isSome_map, Option.isSome_map] at hcongr
      rw [← hcongr, hfirst]
    rw [hmerges r hr text p hp hfirst, hmerges r hr text' p' hp' hfirst']
  escape := hescape

/-- The patterns of regions and the merged one are expressions whose programs stay in their line, and
    no newline escapes. -/
structure StaysInLine (lex : Lexicon) : Prop where
  starts : ∀ d ∈ lex.regions, d.start.StaysInLine
  stops  : ∀ d ∈ lex.regions, d.stop.StaysInLine
  merged : ∀ r, lex.merged = some r → r.StaysInLine
  escape : lex.escape ≠ some '\n'

/-- Programs that stay in their line are line-local. -/
theorem StaysInLine.lineLocal (h : lex.StaysInLine) : lex.LineLocal where
  starts := fun d hd => (h.starts d hd).lineLocal
  stops := fun d hd => (h.stops d hd).lineLocal
  lawful := fun r hr => (h.merged r hr).lineLocal.toLawful
  merged := fun r hr {text text' p p'} hp hp' hsame _ => by
    have hcongr := congrArg Option.isSome ((h.merged r hr).lineLocal.depends hp hp' hsame)
    rwa [Option.isSome_map, Option.isSome_map] at hcongr
  escape := h.escape

/-- A start lies in its line. -/
theorem firstStartAt?_within {ds : List RegionDef} {tag : Nat} {m : RegionStart}
    (hlocal : ∀ d ∈ ds, d.start.LineLocal) (hp : p ≤ text.size)
    (h : firstStartAt? text p tag ds = some m) : m.stop ≤ lineStop text p := by
  induction ds generalizing tag with
  | nil => exact absurd h (Option.some_ne_none m).symm
  | cons d rest ih =>
      have hrest := fun d' hd' => hlocal d' (List.mem_cons_of_mem d hd')
      rw [firstStartAt?_cons] at h
      split at h
      · rename_i q hq
        split at h
        · obtain rfl := Option.some.inj h
          exact (hlocal d List.mem_cons_self).within hp hq
        · exact ih hrest h
      · exact ih hrest h

/-- A delimiter ends on its line. -/
theorem delimiterAt?_within (hlocal : lex.LineLocal) {q : Nat} {state : ScanState}
    {d : Nat × ScanState} (hq : q ≤ text.size) (h : lex.delimiterAt? text q state = some d) :
    q + d.1 ≤ lineStop text q := by
  have hline : q ≤ lineStop text q := le_lineStop q
  cases state with
  | outside =>
      obtain ⟨m, hm, rfl⟩ := Option.map_eq_some_iff.1 h
      have := firstStartAt?_within hlocal.starts hq (startAt?_eq_some hm).2.2
      simp only
      omega
  | inside tag =>
      obtain ⟨m, hm, rfl⟩ := Option.map_eq_some_iff.1 h
      unfold stopAt? at hm
      split at hm
      · exact absurd hm (Option.some_ne_none m).symm
      · obtain ⟨d, hd, hend⟩ := Option.bind_eq_some_iff.1 hm
        obtain ⟨e, he, rfl⟩ := Option.map_eq_some_iff.1 hend
        have := (hlocal.stops d (List.mem_of_getElem? hd)).within hq he
        simp only
        omega

end Lexicon

/-! ## A grammar that stays in its line -/

namespace Regex

/-- One char of a set. -/
def char (s : CharSet) : Regex := ⟨#[.chars s, .accept]⟩

/-- A char of one set and then a char of another. -/
def pair (s t : CharSet) : Regex := ⟨#[.chars s, .chars t, .accept]⟩

/-- One char of a set or more. -/
def many (s : CharSet) : Regex := ⟨#[.chars s, .fork [-1, 1], .accept]⟩

/-- One char of a set, or none. -/
def optional (s : CharSet) : Regex := ⟨#[.fork [1, 2], .chars s, .accept]⟩

/-- A pattern of one char. -/
theorem endAt?_char (s : CharSet) (text : Array Char) (p : Nat) :
    (char s).matcher.endAt? text p =
      if text[p]?.any s.contains = true then some (p + 1) else none := by
  by_cases hp : p ≤ text.size
  · rw [endAt?_matcher hp]
    split <;> simp_all [endAt?, explore, char]
  · have hnone : text[p]? = none := Array.getElem?_eq_none_iff.2 (by omega)
    rw [endAt?_matcher_past (Nat.lt_of_not_le hp), hnone]
    rfl

/-- A pattern of two chars. -/
theorem endAt?_pair (s t : CharSet) (text : Array Char) (p : Nat) :
    (pair s t).matcher.endAt? text p =
      if text[p]?.any s.contains = true ∧ text[p + 1]?.any t.contains = true then some (p + 2)
      else none := by
  by_cases hp : p ≤ text.size
  · rw [endAt?_matcher hp]
    by_cases hs : text[p]?.any s.contains = true <;>
      by_cases ht : text[p + 1]?.any t.contains = true <;>
        simp [endAt?, explore, pair, hs, ht]
  · have hnone : text[p]? = none := Array.getElem?_eq_none_iff.2 (by omega)
    rw [endAt?_matcher_past (Nat.lt_of_not_le hp), hnone]
    rfl

/-- A pattern of one char or none matches everywhere. -/
theorem endAt?_optional (s : CharSet) {text : Array Char} {p : Nat} (hp : p ≤ text.size) :
    (optional s).matcher.endAt? text p =
      some (if text[p]?.any s.contains = true then p + 1 else p) := by
  have hin : ¬text.size < p := Nat.not_lt.2 hp
  rw [endAt?_matcher hp]
  by_cases hs : text[p]?.any s.contains = true
  · simp [endAt?, explore, branches, optional, hs, hin]
  · simp [endAt?, explore, branches, optional, hs, hin]

/-- A pattern that begins with a char finds nothing in the empty text. -/
theorem find?_nothing {r : Regex} {s : CharSet} (h : r.program[0]? = some (.chars s)) :
    r.matcher.find? #[] 0 = none := by
  have hnot : ¬Accepts r.program (0, 0) := by simp [Accepts, h]
  have hnext : next #[] r.program {} (0, 0) = [] := by
    rw [next, h]
    rfl
  have hend : endAt? #[] r 0 = none := by
    rw [endAt?, explore_cons hnot, hnext, List.nil_append, explore]
  rw [find?_matcher, find?_eq_findSome?]
  simp [hend]

end Regex

namespace Grammar

/-- Lists stand in parentheses, and one that begins with an asterisk is a comment; a backslash
    escapes, and numbers are tokens. -/
def lisp : Grammar :=
  { name := "lisp"
    regions := [⟨"comment", "\\(\\*", "\\*\\)", "comment"⟩, ⟨"list", "\\(", "\\)", "list"⟩]
    tokens := [⟨"number", "[0-9]+", "number"⟩]
    escape := some '\\' }

/-- Its definition of comments. -/
def commentDef : RegionDef :=
  { id := "comment", source := "\\(\\*", start := Regex.pair ⟨[(40, 40)]⟩ ⟨[(42, 42)]⟩
    stop := Regex.pair ⟨[(42, 42)]⟩ ⟨[(41, 41)]⟩, style := "comment" }

/-- Its definition of lists. -/
def listDef : RegionDef :=
  { id := "list", source := "\\(", start := Regex.char ⟨[(40, 40)]⟩
    stop := Regex.char ⟨[(41, 41)]⟩, style := "list" }

/-- Its definition of numbers. -/
def numberDef : TokenDef :=
  { id := "number", regex := Regex.many ⟨[(48, 57)]⟩, style := "number" }

/-- Its opening patterns, merged. -/
def lispStarts : Regex :=
  ⟨#[.fork [1, 4], .chars ⟨[(40, 40)]⟩, .chars ⟨[(42, 42)]⟩, .fork [2], .chars ⟨[(40, 40)]⟩, .accept]⟩

theorem read_comment :
    RegionRule.read ⟨"comment", "\\(\\*", "\\*\\)", "comment"⟩ = .ok commentDef := by
  have hstart : Regex.compile? "\\(\\*" = some commentDef.start :=
    Regex.compile?_of_ofString? (by decide +kernel)
  have hstop : Regex.compile? "\\*\\)" = some commentDef.stop :=
    Regex.compile?_of_ofString? (by decide +kernel)
  simp only [RegionRule.read, RegionRule.readBy, readPattern, hstart, hstop]
  rfl

theorem read_list : RegionRule.read ⟨"list", "\\(", "\\)", "list"⟩ = .ok listDef := by
  have hstart : Regex.compile? "\\(" = some listDef.start :=
    Regex.compile?_of_ofString? (by decide +kernel)
  have hstop : Regex.compile? "\\)" = some listDef.stop :=
    Regex.compile?_of_ofString? (by decide +kernel)
  simp only [RegionRule.read, RegionRule.readBy, readPattern, hstart, hstop]
  rfl

theorem read_number : TokenRule.read ⟨"number", "[0-9]+", "number"⟩ = .ok numberDef := by
  have hdigits : Regex.compile? "[0-9]+" = some numberDef.regex :=
    Regex.compile?_of_ofString? (by decide +kernel)
  simp only [TokenRule.read, TokenRule.readBy, readPattern, hdigits]
  rfl

theorem lexicon_lisp : Lexicon.ofGrammar lisp =
    { regions := [commentDef, listDef], tokens := [numberDef], merged := some lispStarts
      escape := some '\\' } := by
  have hregions : Lexicon.usableRegions Regex.compile? lisp.regions = [commentDef, listDef] := by
    have hcomment : Lexicon.opensOnNothing commentDef = false := by
      rw [Lexicon.opensOnNothing, commentDef, Regex.find?_nothing rfl]
      rfl
    have hlist : Lexicon.opensOnNothing listDef = false := by
      rw [Lexicon.opensOnNothing, listDef, Regex.find?_nothing rfl]
      rfl
    have hread := read_comment
    have hread' := read_list
    rw [RegionRule.read] at hread hread'
    simp [Lexicon.usableRegions, lisp, hread, hread', hcomment, hlist]
  have htokens : Lexicon.usableTokens Regex.compile? lisp.tokens = [numberDef] := by
    have hread := read_number
    rw [TokenRule.read] at hread
    simp [Lexicon.usableTokens, lisp, hread, Except.toOption]
  have hmerged : Regex.compile? (Lexicon.mergedSource [commentDef, listDef]) =
      some lispStarts.matcher :=
    Regex.compile?_of_ofString? (by decide +kernel)
  rw [Lexicon.ofGrammar, Lexicon.ofGrammarBy, hregions, htokens]
  show Lexicon.mk [commentDef, listDef] _ (Lexicon.mergedStart _ [commentDef, listDef]) _ = _
  rw [Lexicon.mergedStart, hmerged]
  rfl

/-- An opening parenthesis stands at the position. -/
def ParenAt (text : Array Char) (p : Nat) : Prop :=
  text[p]?.any (CharSet.contains ⟨[(40, 40)]⟩) = true

/-- An asterisk stands at the position. -/
def StarAt (text : Array Char) (p : Nat) : Prop :=
  text[p]?.any (CharSet.contains ⟨[(42, 42)]⟩) = true

instance (text : Array Char) (p : Nat) : Decidable (ParenAt text p) :=
  inferInstanceAs (Decidable (_ = _))

instance (text : Array Char) (p : Nat) : Decidable (StarAt text p) :=
  inferInstanceAs (Decidable (_ = _))

/-- A list begins with a parenthesis. -/
theorem endAt?_list (text : Array Char) (p : Nat) :
    listDef.start.endAt? text p = if ParenAt text p then some (p + 1) else none :=
  Regex.endAt?_char _ text p

/-- A comment begins with a parenthesis and an asterisk. -/
theorem endAt?_comment (text : Array Char) (p : Nat) :
    commentDef.start.endAt? text p =
      if ParenAt text p ∧ StarAt text (p + 1) then some (p + 2) else none :=
  Regex.endAt?_pair _ _ text p

/-- The merged pattern sees every parenthesis. -/
theorem isSome_lispStarts (text : Array Char) (p : Nat) :
    (lispStarts.matcher.endAt? text p).isSome = true ↔ ParenAt text p := by
  unfold ParenAt
  by_cases hp : p ≤ text.size
  · rw [Regex.endAt?_matcher hp]
    have hin : ¬text.size < p := Nat.not_lt.2 hp
    by_cases hparen : text[p]?.any (CharSet.contains ⟨[(40, 40)]⟩) = true
    · by_cases hstar : text[p + 1]?.any (CharSet.contains ⟨[(42, 42)]⟩) = true
      · have hnext : ¬text.size < p + 1 + 1 := Nat.not_lt.2 (Regex.lt_size_of_any hstar)
        simp [Regex.endAt?, Regex.explore, Regex.branches, lispStarts, hparen, hstar, hin, hnext]
      · simp [Regex.endAt?, Regex.explore, Regex.branches, lispStarts, hparen, hstar, hin]
    · simp [Regex.endAt?, Regex.explore, Regex.branches, lispStarts, hparen, hin]
  · have hnone : text[p]? = none := Array.getElem?_eq_none_iff.2 (Nat.le_of_not_le hp)
    rw [Regex.endAt?_matcher_past (Nat.lt_of_not_le hp), hnone]
    rfl

/-- A parenthesis that is not escaped opens a region, a comment when an asterisk follows. -/
theorem startAt?_lisp (text : Array Char) (p : Nat) :
    (Lexicon.ofGrammar lisp).startAt? text p =
      if isEscaped text '\\' p then none
      else if ParenAt text p then
        if StarAt text (p + 1) then some ⟨0, p, p + 2⟩ else some ⟨1, p, p + 1⟩
      else none := by
  have hseen : lispStarts.matcher.endAt? text p = none ↔ ¬ParenAt text p := by
    rw [← isSome_lispStarts, Option.not_isSome_iff_eq_none]
  rw [lexicon_lisp]
  simp only [Lexicon.startAt?, Lexicon.hides, Lexicon.firstStartAt?_cons, endAt?_comment, endAt?_list,
    Option.any_some, Option.isNone_iff_eq_none, hseen]
  by_cases hescaped : isEscaped text '\\' p = true
  · simp [hescaped]
  · by_cases hparen : ParenAt text p
    · by_cases hstar : StarAt text (p + 1) <;> simp [hescaped, hparen, hstar]
    · simp [hescaped, hparen]

/-- Outside regions the delimiters are the starts that are not escaped. -/
theorem delimiterAt?_lisp_outside (text : Array Char) (p : Nat) :
    (Lexicon.ofGrammar lisp).delimiterAt? text p .outside =
      if isEscaped text '\\' p then none
      else if ParenAt text p then
        if StarAt text (p + 1) then some (2, .inside 0) else some (1, .inside 1)
      else none := by
  rw [Lexicon.delimiterAt?, startAt?_lisp]
  by_cases hescaped : isEscaped text '\\' p = true
  · simp [hescaped]
  · by_cases hparen : ParenAt text p
    · by_cases hstar : StarAt text (p + 1) <;> simp [hescaped, hparen, hstar]
    · simp [hescaped, hparen]

/-- A closing parenthesis that is not escaped closes a list. -/
theorem delimiterAt?_lisp_list (text : Array Char) (p : Nat) :
    (Lexicon.ofGrammar lisp).delimiterAt? text p (.inside 1) =
      if isEscaped text '\\' p then none
      else if text[p]?.any (CharSet.contains ⟨[(41, 41)]⟩) = true then some (1, .outside)
      else none := by
  have hend : listDef.stop.endAt? text p = _ := Regex.endAt?_char ⟨[(41, 41)]⟩ text p
  rw [lexicon_lisp]
  simp only [Lexicon.delimiterAt?, Lexicon.stopAt?, Lexicon.hides, Option.any_some, Lexicon.region?,
    List.getElem?_cons_succ, List.getElem?_cons_zero, Option.bind_some, hend]
  by_cases hescaped : isEscaped text '\\' p = true
  · simp [hescaped]
  · by_cases hclose : text[p]?.any (CharSet.contains ⟨[(41, 41)]⟩) = true <;>
      simp [hescaped, hclose]

/-- All its patterns stay in their line. -/
theorem lineLocal_lisp : (Lexicon.ofGrammar lisp).LineLocal := by
  rw [lexicon_lisp]
  refine Lexicon.StaysInLine.lineLocal ⟨?_, ?_, ?_, ?_⟩
  · intro d hd
    simp only [List.mem_cons, List.not_mem_nil, or_false] at hd
    rcases hd with rfl | rfl <;> exact ⟨_, rfl, by decide +kernel⟩
  · intro d hd
    simp only [List.mem_cons, List.not_mem_nil, or_false] at hd
    rcases hd with rfl | rfl <;> exact ⟨_, rfl, by decide +kernel⟩
  · intro r hr
    obtain rfl := Option.some.inj hr
    exact ⟨_, rfl, by decide +kernel⟩
  · decide

end Grammar

end Highlighter
