import Highlighter.Proofs.Definitions
import Highlighter.Proofs.EncodedScan

/-! # Region starts — which region opens next

    A region opens at a position when nothing hides it and some opening pattern takes chars
    there; of the patterns that do, the first declared gives the region and its text
    (`Lexicon.Opens`).  The search for the next region start goes from candidate to
    candidate, by the merged pattern or by each opening pattern for itself.

    * `firstStartAt?_eq_some_iff` — at one position the first declared pattern wins.
    * `findStart_eq_some_iff`, `findStart_eq_none_iff` — the search answers the least position
      at which a region opens, as long as the merged pattern sees every opening.
    * `findStart_separate_iff` — the two ways of searching agree on every text exactly when
      it sees those that nothing hides. -/

namespace Highlighter

variable {text : Array Char}

/-- The opening pattern takes the chars from one position up to another. -/
def RegionDef.Takes (d : RegionDef) (text : Array Char) (p q : Nat) : Prop :=
  d.start.endAt? text p = some q ∧ p < q

namespace Lexicon

variable {lex : Lexicon} {p q tag : Nat} {d : RegionDef} {ds : List RegionDef} {m : RegionStart}

/-- A region opens: nothing hides it, and it is that of the first definition whose opening
    pattern takes some chars there. -/
structure Opens (lex : Lexicon) (text : Array Char) (m : RegionStart) : Prop where
  inside : m.start ≤ text.size
  plain  : lex.hides text m.start = false
  takes  : ∃ d, lex.region? m.tag = some d ∧ d.Takes text m.start m.stop
  first  : ∀ tag < m.tag, ∀ d, lex.region? tag = some d → ∀ q, ¬d.Takes text m.start q

/-! ## At one position -/

/-- A definition whose start takes a char here goes before all behind it. -/
theorem firstStartAt?_cons_of_takes (h : d.Takes text p q) :
    firstStartAt? text p tag (d :: ds) = some ⟨tag, p, q⟩ := by
  obtain ⟨hend, hlt⟩ := h
  simp only [firstStartAt?_cons, hend, if_pos hlt]

/-- A definition whose start takes no char here makes way for those behind it. -/
theorem firstStartAt?_cons_of_not_takes (h : ∀ q, ¬d.Takes text p q) :
    firstStartAt? text p tag (d :: ds) = firstStartAt? text p (tag + 1) ds := by
  cases hend : d.start.endAt? text p with
  | none => simp only [firstStartAt?_cons, hend]
  | some q =>
      have hle : ¬p < q := by
        intro hlt
        exact h q ⟨hend, hlt⟩
      simp only [firstStartAt?_cons, hend, if_neg hle]

/-- **The first declared wins** among the definitions, numbered from `tag`, that take some chars at
    a position. -/
theorem firstStartAt?_eq_some_iff :
    firstStartAt? text p tag ds = some m ↔
      m.start = p ∧ ∃ i d, m.tag = tag + i ∧ ds[i]? = some d ∧ d.Takes text p m.stop ∧
        ∀ j < i, ∀ d', ds[j]? = some d' → ∀ q, ¬d'.Takes text p q := by
  induction ds generalizing tag with
  | nil => simp [firstStartAt?]
  | cons d rest ih =>
      by_cases htakes : ∃ q, d.Takes text p q
      · obtain ⟨q, hq⟩ := htakes
        rw [firstStartAt?_cons_of_takes hq]
        constructor
        · intro h
          obtain rfl := Option.some.inj h
          exact ⟨rfl, 0, d, rfl, rfl, hq, by simp⟩
        · rintro ⟨hstart, i, d', htag, hd', htakes, hbefore⟩
          cases i with
          | zero =>
              obtain rfl : d = d' := by simpa using hd'
              have hstop : q = m.stop := Option.some.inj (hq.1.symm.trans htakes.1)
              obtain ⟨mtag, mstart, mstop⟩ := m
              simp_all
          | succ i => exact absurd hq (hbefore 0 (Nat.succ_pos i) d rfl q)
      · have hnone : ∀ q, ¬d.Takes text p q := by
          intro q hq
          exact htakes ⟨q, hq⟩
        rw [firstStartAt?_cons_of_not_takes hnone, ih]
        constructor
        · rintro ⟨hstart, i, d', htag, hd', hq, hbefore⟩
          refine ⟨hstart, i + 1, d', by omega, by simpa using hd', hq, ?_⟩
          intro j hj d'' hd''
          cases j with
          | zero =>
              obtain rfl : d = d'' := by simpa using hd''
              exact hnone
          | succ j => exact hbefore j (by omega) d'' (by simpa using hd'')
        · rintro ⟨hstart, i, d', htag, hd', hq, hbefore⟩
          cases i with
          | zero =>
              obtain rfl : d = d' := by simpa using hd'
              exact absurd hq (hnone m.stop)
          | succ i =>
              refine ⟨hstart, i, d', by omega, by simpa using hd', hq, ?_⟩
              intro j hj d'' hd''
              exact hbefore (j + 1) (by omega) d'' (by simpa using hd'')

/-- A region opens where nothing hides it and the first definition with a char begins. -/
theorem opens_iff :
    lex.Opens text m ↔ m.start ≤ text.size ∧ lex.hides text m.start = false ∧
      firstStartAt? text m.start 0 lex.regions = some m := by
  rw [firstStartAt?_eq_some_iff]
  constructor
  · rintro ⟨hinside, hplain, ⟨d, hd, htakes⟩, hfirst⟩
    exact ⟨hinside, hplain, rfl, m.tag, d, (Nat.zero_add _).symm, hd, htakes, hfirst⟩
  · rintro ⟨hinside, hplain, -, i, d, htag, hd, htakes, hbefore⟩
    obtain rfl : m.tag = i := htag.trans (Nat.zero_add i)
    exact ⟨hinside, hplain, ⟨d, hd, htakes⟩, hbefore⟩

/-! ## The next region start -/

/-- The merged pattern sees every region that opens. -/
def SeesOpenings (lex : Lexicon) : Prop :=
  ∀ r, lex.merged = some r → ∀ (text : Array Char) (m : RegionStart), lex.Opens text m →
    (r.endAt? text m.start).isSome = true

/-- A merged pattern that matches where a start does sees all openings. -/
theorem MergesAll.seesOpenings (h : lex.MergesAll) : lex.SeesOpenings := by
  intro r hr text m hopens
  obtain ⟨hinside, -, hfirst⟩ := opens_iff.1 hopens
  exact h r hr text m.start hinside (by simp [hfirst])

/-- An alternation matches where one of the patterns does, so it sees what each of them takes. -/
theorem mergesAll_of_alternation
    (h : ∀ r, lex.merged = some r → ∀ (text : Array Char) (p : Nat), p ≤ text.size →
      ((r.endAt? text p).isSome = true ↔ ∃ d ∈ lex.regions, (d.start.endAt? text p).isSome = true)) :
    lex.MergesAll := by
  intro r hr text p hp hsome
  obtain ⟨m, hm⟩ := Option.isSome_iff_exists.1 hsome
  exact (h r hr text p hp).2 (firstStartAt?_isSome_of hm)

/-- The start at a position is the region that opens there. -/
theorem startAt?_eq_some_iff (hsees : lex.SeesOpenings) (hq : q ≤ text.size) :
    lex.startAt? text q = some m ↔ m.start = q ∧ lex.Opens text m := by
  constructor
  · intro h
    obtain ⟨hplain, -, hfirst⟩ := startAt?_eq_some h
    obtain rfl := (firstStartAt?_bounds hfirst).1
    exact ⟨rfl, opens_iff.2 ⟨hq, hplain, hfirst⟩⟩
  · rintro ⟨rfl, hopens⟩
    obtain ⟨hinside, hplain, hfirst⟩ := opens_iff.1 hopens
    have hseen : ¬(lex.merged.any fun r => (r.endAt? text m.start).isNone) = true := by
      cases hr : lex.merged with
      | none => simp
      | some r =>
          have := hsees r hr text m hopens
          simpa [Option.isSome_iff_ne_none] using this
    rw [startAt?, if_neg (by simp [hplain, hseen]), hfirst]

/-- The search answers the least position at which a region opens. -/
theorem findStart_eq_some_iff (hlawful : lex.Lawful) (hsees : lex.SeesOpenings) :
    lex.findStart text p = some m ↔
      p ≤ m.start ∧ lex.Opens text m ∧ ∀ m', lex.Opens text m' → p ≤ m'.start → m.start ≤ m'.start := by
  rw [findStart_eq_firstFrom hlawful]
  constructor
  · intro h
    obtain ⟨q, hpq, hq, hat, hbefore⟩ := firstFrom_eq_some h
    obtain ⟨rfl, hopens⟩ := (startAt?_eq_some_iff hsees hq).1 hat
    refine ⟨hpq, hopens, ?_⟩
    intro m' hopens' hp'
    apply Nat.le_of_not_lt
    intro hlt
    have hsome := (startAt?_eq_some_iff hsees hopens'.inside).2 ⟨rfl, hopens'⟩
    rw [hbefore m'.start hp' hlt] at hsome
    exact absurd hsome.symm (Option.some_ne_none m')
  · rintro ⟨hp, hopens, hleast⟩
    have hat := (startAt?_eq_some_iff hsees hopens.inside).2 ⟨rfl, hopens⟩
    have hskip : ∀ i, p ≤ i → i < m.start → lex.startAt? text i = none := by
      intro i hi hlt
      cases hsome : lex.startAt? text i with
      | none => rfl
      | some m' =>
          obtain ⟨rfl, hopens'⟩ :=
            (startAt?_eq_some_iff hsees (Nat.le_trans (Nat.le_of_lt hlt) hopens.inside)).1 hsome
          exact absurd hlt (Nat.not_lt.2 (hleast m' hopens' hi))
    rw [firstFrom_skip hp hskip, firstFrom_of_some hopens.inside hat]

/-- Nothing is answered when no region opens from there on. -/
theorem findStart_eq_none_iff (hlawful : lex.Lawful) (hsees : lex.SeesOpenings) :
    lex.findStart text p = none ↔ ∀ m, lex.Opens text m → m.start < p := by
  rw [findStart_eq_firstFrom hlawful, firstFrom_eq_none_iff]
  constructor
  · intro h m hopens
    apply Nat.lt_of_not_le
    intro hle
    have hsome := (startAt?_eq_some_iff hsees hopens.inside).2 ⟨rfl, hopens⟩
    rw [h m.start hle hopens.inside] at hsome
    exact absurd hsome.symm (Option.some_ne_none m)
  · intro h i hp hi
    cases hsome : lex.startAt? text i with
    | none => rfl
    | some m =>
        obtain ⟨rfl, hopens⟩ := (startAt?_eq_some_iff hsees hi).1 hsome
        exact absurd (h m hopens) (Nat.not_lt.2 hp)

/-! ## With and without the merged pattern -/

/-- Without the merged pattern each opening pattern is searched for by itself. -/
def separate (lex : Lexicon) : Lexicon := { lex with merged := none }

/-- Without the merged pattern the same regions open. -/
theorem opens_separate : lex.separate.Opens text m ↔ lex.Opens text m := by
  constructor
  · rintro ⟨hinside, hplain, htakes, hfirst⟩
    exact ⟨hinside, hplain, htakes, hfirst⟩
  · rintro ⟨hinside, hplain, htakes, hfirst⟩
    exact ⟨hinside, hplain, htakes, hfirst⟩

/-- Without a merged pattern nothing is overlooked. -/
theorem seesOpenings_separate (lex : Lexicon) : lex.separate.SeesOpenings := by
  intro r hr
  exact absurd hr.symm (Option.some_ne_none r)

/-- Without the merged pattern a lexicon stays lawful. -/
theorem Lawful.separate (h : lex.Lawful) : lex.separate.Lawful where
  starts := h.starts
  stops := h.stops
  merged := fun r hr => absurd hr.symm (Option.some_ne_none r)

/-- The merged pattern makes no difference to what is found. -/
theorem findStart_separate (hlawful : lex.Lawful) (hsees : lex.SeesOpenings) :
    lex.findStart text p = lex.separate.findStart text p := by
  apply Option.ext
  intro m
  rw [findStart_eq_some_iff hlawful hsees,
    findStart_eq_some_iff hlawful.separate lex.seesOpenings_separate]
  simp only [opens_separate]

/-- **The two ways of searching agree** on every text exactly when the merged pattern sees every
    region that opens. -/
theorem findStart_separate_iff (hlawful : lex.Lawful) :
    (∀ (text : Array Char) (p : Nat), lex.findStart text p = lex.separate.findStart text p) ↔
      lex.SeesOpenings := by
  constructor
  · intro hagree r hr text m hopens
    have hfound : lex.findStart text m.start = some m := by
      rw [hagree, findStart_eq_some_iff hlawful.separate lex.seesOpenings_separate]
      exact ⟨Nat.le_refl _, opens_separate.2 hopens, fun m' _ hle => hle⟩
    rw [findStart_eq_firstFrom hlawful] at hfound
    obtain ⟨q, -, hq, hat, -⟩ := firstFrom_eq_some hfound
    obtain ⟨-, hseen, -⟩ := startAt?_eq_some hat
    rw [(startAt?_bounds hat).1]
    exact hseen r hr
  · intro hsees text p
    exact findStart_separate hlawful hsees

/-- **The next region start.**  For lawful matchers, and with a merged pattern that sees what the
    opening patterns take, as their alternation does, the search answers what it answers without
    one: the least position from `p` on that nothing hides and at which some opening pattern takes
    chars, with the first declared of those and the end of its match.  By byte offsets both ways of
    searching come to an end, with that answer and no other. -/
theorem findStart_least (hlawful : lex.Lawful) (hmerges : lex.MergesAll) (text : Array Char)
    (p : Nat) :
    lex.findStart text p = lex.separate.findStart text p ∧
      (∀ m, lex.findStart text p = some m ↔ p ≤ m.start ∧ lex.Opens text m ∧
        ∀ m', lex.Opens text m' → p ≤ m'.start → m.start ≤ m'.start) ∧
      (lex.findStart text p = none ↔ ∀ m, lex.Opens text m → m.start < p) ∧
      ∀ answer,
        (Encoded.Starts (lex.encoded text) text (Encoded.offset text p) answer ↔
          answer = (lex.findStart text p).map (Encoded.startInBytes text)) ∧
        (Encoded.Starts (lex.separate.encoded text) text (Encoded.offset text p) answer ↔
          answer = (lex.findStart text p).map (Encoded.startInBytes text)) := by
  have hsees := hmerges.seesOpenings
  have hseparate : lex.findStart text p = lex.separate.findStart text p :=
    findStart_separate hlawful hsees
  refine ⟨hseparate, ?_, findStart_eq_none_iff hlawful hsees, ?_⟩
  · intro m
    exact findStart_eq_some_iff hlawful hsees
  · intro answer
    refine ⟨Encoded.starts_iff, ?_⟩
    rw [hseparate]
    exact Encoded.starts_iff

end Lexicon

/-! ## Two regions that open alike -/

namespace Grammar

/-- Its merged pattern matches where one of its starts does. -/
theorem mergesAll_lisp : (Lexicon.ofGrammar lisp).MergesAll := by
  rw [lexicon_lisp]
  apply Lexicon.mergesAll_of_alternation
  intro r hr text p hp
  obtain rfl := Option.some.inj hr
  rw [isSome_lispStarts]
  simp only [List.mem_cons, List.not_mem_nil, or_false, exists_eq_or_imp, exists_eq_left,
    endAt?_comment, endAt?_list]
  by_cases hparen : ParenAt text p
  · simp [hparen]
  · simp [hparen]

/-- An umlaut, an escaped parenthesis, a comment, and a parenthesis. -/
def commentText : Array Char := #['ü', '\\', '(', '(', '*', '(']

end Grammar

namespace Lexicon

/-- Regions open at two places only: elsewhere is no parenthesis, or it is escaped. -/
theorem opens_comments {m : RegionStart} (h : (ofGrammar .lisp).Opens Grammar.commentText m) :
    m.start = 3 ∨ m.start = 5 := by
  have hsize : m.start ≤ 6 := h.inside
  have hsome := (startAt?_eq_some_iff Grammar.mergesAll_lisp.seesOpenings h.inside).2 ⟨rfl, h⟩
  rw [Grammar.startAt?_lisp] at hsome
  have hat : (m.start = 0 ∨ m.start = 1 ∨ m.start = 2 ∨ m.start = 4 ∨ m.start = 6) ∨
      m.start = 3 ∨ m.start = 5 := by
    omega
  rcases hat with hplain | hparen
  · rcases hplain with h | h | h | h | h <;> rw [h] at hsome <;>
      exact absurd hsome (Option.some_ne_none m).symm
  · exact hparen

/-- An escaped parenthesis is passed over, and where both patterns match the comment opens.  It
    begins at byte 4, as the umlaut takes two. -/
theorem findStart_least_comments :
    (ofGrammar .lisp).Lawful ∧ (ofGrammar .lisp).MergesAll ∧
    (ofGrammar .lisp).findStart Grammar.commentText 0 = some ⟨0, 3, 5⟩ ∧
    (ofGrammar .lisp).findStart Grammar.commentText 4 = some ⟨1, 5, 6⟩ ∧
    (ofGrammar .lisp).findStart Grammar.commentText 6 = none ∧
    Encoded.Starts ((ofGrammar .lisp).encoded Grammar.commentText) Grammar.commentText 0
      (some ⟨0, 4, 6⟩) := by
  have hsees := Grammar.mergesAll_lisp.seesOpenings
  have hopens : ∀ m, m.start ≤ 6 →
      (ofGrammar .lisp).startAt? Grammar.commentText m.start = some m →
        (ofGrammar .lisp).Opens Grammar.commentText m := by
    intro m hm h
    exact ((startAt?_eq_some_iff hsees hm).1 h).2
  have hcomment : (ofGrammar .lisp).startAt? Grammar.commentText 3 = some ⟨0, 3, 5⟩ := by
    rw [Grammar.startAt?_lisp]
    rfl
  have hparen : (ofGrammar .lisp).startAt? Grammar.commentText 5 = some ⟨1, 5, 6⟩ := by
    rw [Grammar.startAt?_lisp]
    rfl
  have hlawful := lawful_ofGrammar .lisp
  have honly := fun m hm => opens_comments (m := m) hm
  obtain ⟨-, hsome, -, hbytes⟩ := findStart_least hlawful Grammar.mergesAll_lisp
    Grammar.commentText 0
  obtain ⟨-, hsome', -⟩ := findStart_least hlawful Grammar.mergesAll_lisp
    Grammar.commentText 4
  obtain ⟨-, -, hnone', -⟩ := findStart_least hlawful Grammar.mergesAll_lisp
    Grammar.commentText 6
  have hfirst : (ofGrammar .lisp).findStart Grammar.commentText 0 = some ⟨0, 3, 5⟩ := by
    refine (hsome _).2 ⟨by decide, hopens _ (by decide) hcomment, ?_⟩
    intro m hm _
    have := honly m hm
    simp only
    omega
  refine ⟨hlawful, Grammar.mergesAll_lisp, hfirst,
    (hsome' _).2 ⟨by decide, hopens _ (by decide) hparen, ?_⟩, hnone'.2 ?_, (hbytes _).1.2 ?_⟩
  · intro m hm hle
    have := honly m hm
    simp only
    omega
  · intro m hm
    have := honly m hm
    omega
  · rw [hfirst]
    decide

end Lexicon

end Highlighter
