import Highlighter.Proofs.Repair
import Mathlib.Data.List.Chain

/-! # Table shape — boundaries in order, whatever the patterns match

    A scan goes on from where it is, and it opens and closes by turns.  So boundaries lead
    from one place of a text to another (`Course`).  A table is a course from the start of
    the text to its frontier, and what an edit sets aside is a course of its own.

    A batch makes the course longer, cutting back makes it shorter, and taking back what
    was set aside joins two courses at a boundary that both have (`Orderly.build`,
    `Orderly.invalidate`).  All that is asked of the patterns is that a match lies behind
    the place it is searched from and inside the text. -/

namespace Highlighter

/-! ## Courses -/

/-- The least offset that the boundary behind may have; no region is empty. -/
def Boundary.past (b : Boundary) : Nat := if b.opens then b.offset + 1 else b.offset

/-- What is behind a boundary is not before it. -/
theorem Boundary.offset_le_past (b : Boundary) : b.offset ≤ b.past := by
  rw [past]
  split <;> omega

/-- A boundary that may stand in a state: outside a region one opens and inside it closes, and the
    boundary counts the regions that are open behind it. -/
structure Boundary.Turns (b : Boundary) (state : ScanState) : Prop where
  state_iff : state = .outside ↔ b.state ≠ .outside
  depth     : b.depth = if b.opens then 1 else 0

/-- What a scan finds turns the state that it is in. -/
theorem Boundary.turns_into {o : Nat} {state state' : ScanState}
    (h : state = .outside ↔ state' ≠ .outside) : (into o state').Turns state :=
  ⟨(into_state o state').symm ▸ h, into_depth o state'⟩

/-- A boundary that moves along turns the same state. -/
theorem Boundary.Turns.shifted {b : Boundary} {state : ScanState} (h : b.Turns state) (delta : Int) :
    (b.shifted delta).Turns state := ⟨h.state_iff, h.depth⟩

/-- Boundaries that lead from one place to another: in order, opening and closing by turns, with
    no empty region. -/
def Course : (p : Nat) → ScanState → List Boundary → (q : Nat) → ScanState → Prop
  | p, state, [], q, state' => p ≤ q ∧ state = state'
  | p, state, b :: rest, q, state' =>
    p ≤ b.offset ∧ b.Turns state ∧ Course b.past b.state rest q state'

namespace Course

variable {p q r p' q' : Nat} {state state' state'' : ScanState} {bs bs' : List Boundary}
  {b : Boundary}

/-- A course does not go back. -/
theorem le (h : Course p state bs q state') : p ≤ q := by
  induction bs generalizing p state with
  | nil => exact h.1
  | cons b rest ih =>
      obtain ⟨hp, -, hrest⟩ := h
      exact Nat.le_trans hp (Nat.le_trans b.offset_le_past (ih hrest))

/-- A course between two places is one between any places farther apart. -/
theorem mono (h : Course p state bs q state') (hp : p' ≤ p) (hq : q ≤ q') :
    Course p' state bs q' state' := by
  induction bs generalizing p p' state with
  | nil => exact ⟨Nat.le_trans hp (Nat.le_trans h.1 hq), h.2⟩
  | cons b rest ih =>
      obtain ⟨hb, hturn, hrest⟩ := h
      exact ⟨Nat.le_trans hp hb, hturn, ih hrest (Nat.le_refl _)⟩

/-- Courses one after the other are one course. -/
theorem append (h : Course p state bs q state') (h' : Course q state' bs' r state'') :
    Course p state (bs ++ bs') r state'' := by
  induction bs generalizing p state with
  | nil =>
      obtain ⟨hp, rfl⟩ := h
      exact h'.mono hp (Nat.le_refl r)
  | cons b rest ih =>
      obtain ⟨hb, hturn, hrest⟩ := h
      exact ⟨hb, hturn, ih hrest⟩

/-- A course can be divided between any two of its boundaries. -/
theorem split (h : Course p state (bs ++ bs') r state'') :
    ∃ q state', Course p state bs q state' ∧ Course q state' bs' r state'' := by
  induction bs generalizing p state with
  | nil => exact ⟨p, state, ⟨Nat.le_refl p, rfl⟩, h⟩
  | cons b rest ih =>
      obtain ⟨hb, hturn, hrest⟩ := h
      obtain ⟨q, state', hfront, hback⟩ := ih hrest
      exact ⟨q, state', ⟨hb, hturn, hfront⟩, hback⟩

/-- A course may begin right at its first boundary. -/
theorem from_first (h : Course p state (b :: bs) q state') :
    Course b.offset state (b :: bs) q state' := ⟨Nat.le_refl _, h.2⟩

/-- The boundaries of a course lie between its ends. -/
theorem bounds (h : Course p state bs q state') (hb : b ∈ bs) : p ≤ b.offset ∧ b.past ≤ q := by
  induction bs generalizing p state with
  | nil => exact absurd hb List.not_mem_nil
  | cons b' rest ih =>
      obtain ⟨hp, -, hrest⟩ := h
      rcases List.mem_cons.1 hb with rfl | hb
      · exact ⟨hp, hrest.le⟩
      · have hle := b'.offset_le_past
        obtain ⟨hfirst, hlast⟩ := ih hrest hb
        exact ⟨by omega, hlast⟩

/-- A course ends in the state that its last boundary leads to. -/
theorem state_last (h : Course p state (bs ++ [b]) q state') :
    Course p state (bs ++ [b]) b.past b.state ∧ state' = b.state := by
  obtain ⟨r, mid, hfront, hb, hturn, -, hstate⟩ := h.split
  exact ⟨hfront.append ⟨hb, hturn, Nat.le_refl _, rfl⟩, hstate.symm⟩

/-- All that moves along stays a course. -/
theorem shifted (h : Course p state bs q state') {delta : Int} (hp : 0 ≤ (p : Int) + delta) :
    Course (shift p delta) state (bs.map (·.shifted delta)) (shift q delta) state' := by
  induction bs generalizing p state with
  | nil => exact ⟨shift_mono h.1, h.2⟩
  | cons b rest ih =>
      obtain ⟨hb, hturn, hrest⟩ := h
      have hpast : (b.shifted delta).past = shift b.past delta := by
        rw [Boundary.past, Boundary.past, Boundary.shifted_opens, Boundary.shifted_offset]
        split
        · show ((b.offset : Int) + delta).toNat + 1 = (((b.offset + 1 : Nat) : Int) + delta).toNat
          omega
        · rfl
      have hnext := ih hrest (by have := b.offset_le_past; omega)
      rw [← hpast] at hnext
      exact ⟨shift_mono hb, hturn.shifted delta, hnext⟩

end Course

/-! ## Scanning a batch -/

namespace Lexicon

variable {lex : Lexicon} {window : Array Char} {pos : Nat} {state : ScanState} {s : Step}

/-- One step of a scan is a course of one boundary. -/
theorem step_course (base : Nat) (h : lex.step window pos state = some s) :
    Course (base + pos) state [Boundary.into (base + s.offset) s.state] (base + s.next) s.state := by
  have hturn := Boundary.turns_into (o := base + s.offset) (step_state h)
  cases state with
  | outside =>
      obtain ⟨m, hm, rfl⟩ := Option.map_eq_some_iff.1 h
      have hbounds := findStart_bounds hm
      refine ⟨Nat.add_le_add_left hbounds.1 base, hturn, ?_, rfl⟩
      show base + m.start + 1 ≤ base + m.stop
      omega
  | inside tag =>
      obtain ⟨m, hm, rfl⟩ := Option.map_eq_some_iff.1 h
      obtain ⟨d, -, hd⟩ := Option.bind_eq_some_iff.1 hm
      have hbounds := nextUnescaped_bounds hd
      refine ⟨?_, hturn, Nat.le_refl _, rfl⟩
      show base + pos ≤ base + m.stop
      omega

end Lexicon

namespace Analysis

variable {lex : Lexicon} {window : Array Char} {base pos : Nat} {bound : Option Nat}
  {state : ScanState} {saved : Option SavedTail}

/-- What the scan of a batch finds, and where it ends. -/
inductive Finds (window : Array Char) (base pos : Nat) (state : ScanState)
    (saved : Option SavedTail) : List Boundary × BatchEnd → Prop
  | reached {bs : List Boundary} {pos' : Nat} {state' : ScanState} {saved' : Option SavedTail} :
      Course (base + pos) state bs (base + pos') state' → pos' ≤ window.size →
      Remains saved saved' → Finds window base pos state saved (bs, .reached pos' state' saved')
  /-- The last boundary is one that was set aside. -/
  | spliced {bs front behind : List Boundary} {b : Boundary} {s : SavedTail} :
      Course (base + pos) state bs b.past b.state → saved = some s →
      s.entries = front ++ b :: behind →
      Finds window base pos state saved (bs, .spliced b.offset behind s.frontier)

/-- A boundary that a scan takes stands before what it finds from there on. -/
theorem Finds.cons {pos' : Nat} {state' : ScanState} {saved' : Option SavedTail} {b : Boundary}
    {bs : List Boundary} {stop : BatchEnd}
    (hb : Course (base + pos) state [b] (base + pos') state') (hsaved : Remains saved saved')
    (h : Finds window base pos' state' saved' (bs, stop)) :
    Finds window base pos state saved (b :: bs, stop) := by
  cases h with
  | reached hcourse hsize hremains =>
      exact .reached (hb.append hcourse) hsize (hsaved.trans hremains)
  | @spliced bs front behind b' s hcourse hs hentries =>
      obtain ⟨s₀, front₀, hs₀, hfront, hfrontier⟩ := hsaved s hs
      have hwhole : s₀.entries = (front₀ ++ front) ++ b' :: behind := by
        rw [hfront, hentries, List.append_assoc]
      rw [← hfrontier]
      exact .spliced (hb.append hcourse) hs₀ hwhole

/-- **The scan of a batch** finds a course from where it begins. -/
theorem scanBatch_finds (lex : Lexicon) (window : Array Char) (base : Nat) (bound : Option Nat)
    (pos : Nat) (state : ScanState) (saved : Option SavedTail) (hpos : pos ≤ window.size) :
    Finds window base pos state saved (scanBatch lex window base bound pos state saved) := by
  fun_induction scanBatch lex window base bound pos state saved with
  | case1 pos state saved =>
      exact .reached ⟨Nat.le_refl _, rfl⟩ hpos (.refl saved)
  | case2 pos state saved =>
      exact .reached ⟨Nat.le_refl _, rfl⟩ hpos (.refl saved)
  | case3 pos state saved s hs hbound b saved' behind hbehind =>
      obtain ⟨s₀, front, hsaved, hmet, hfrontier⟩ := exists_met hbehind
      rw [hfrontier]
      have hcourse := (List.nil_append [b] ▸ Lexicon.step_course base hs).state_last.1
      exact .spliced hcourse hsaved hmet
  | case4 pos state saved s hs hbound b saved' hbehind found stop heq ih =>
      rw [heq] at ih
      have hnext := (Lexicon.step_bounds hs).2.1
      exact (ih hnext).cons (Lexicon.step_course base hs) (.discard saved b.offset)

/-- The scan of a batch comes to an end, also where closing patterns match the empty text: each
    round uses up a step of those that were left. -/
theorem length_scanBatch_le (lex : Lexicon) (window : Array Char) (base : Nat)
    (bound : Option Nat) (pos : Nat) (state : ScanState) (saved : Option SavedTail) :
    (scanBatch lex window base bound pos state saved).1.length ≤
      Lexicon.stepsLeft window pos state := by
  fun_induction scanBatch lex window base bound pos state saved with
  | case1 => exact Nat.zero_le _
  | case2 => exact Nat.zero_le _
  | case3 pos state saved s hs =>
      exact Nat.succ_le_of_lt (Nat.lt_of_le_of_lt (Nat.zero_le _) (Lexicon.stepsLeft_lt hs))
  | case4 pos state saved s hs hbound b saved' hbehind found stop heq ih =>
      rw [heq] at ih
      have hless := Lexicon.stepsLeft_lt hs
      show found.length + 1 ≤ _
      have ih : found.length ≤ Lexicon.stepsLeft window s.next s.state := ih
      omega

variable {doc : Document} {a a' : Analysis} {f : Frontier} {report : BuildReport}

/-- All that one call of `build` can do to a table with a frontier. -/
inductive Grows (doc : Document) (a : Analysis) (f : Frontier) : Analysis → BuildReport → Prop
  /-- There are no regions to scan for. -/
  | idle :
      Grows doc a f
        { table := { entries := a.table.entries, frontier := none }, saved := none }
        { range := ⟨f.offset, doc.length⟩, processed := doc.length - f.offset, spliced := false }
  /-- The scan comes to the end of the text. -/
  | ends {bs : List Boundary} {q : Nat} {state : ScanState} :
      Course f.offset f.state bs q state →
      Grows doc a f
        { table := { entries := a.table.entries ++ bs, frontier := none }, saved := none }
        { range := ⟨f.offset, q⟩, processed := q - f.offset, spliced := false }
  /-- The scan comes to a place further on. -/
  | goesOn {bs : List Boundary} {q : Nat} {state : ScanState} {saved : Option SavedTail} :
      Course f.offset f.state bs q state → f.offset < q → q < doc.length →
      Remains a.saved saved →
      Grows doc a f
        { table := { entries := a.table.entries ++ bs, frontier := some ⟨q, state⟩ }, saved }
        { range := ⟨f.offset, q⟩, processed := q - f.offset, spliced := false }
  /-- The scan meets a boundary that was set aside. -/
  | meets {bs front behind : List Boundary} {b : Boundary} {s : SavedTail} :
      Course f.offset f.state bs b.past b.state → a.saved = some s →
      s.entries = front ++ b :: behind →
      Grows doc a f
        { table := { entries := a.table.entries ++ bs ++ behind, frontier := s.frontier }
          saved := none }
        { range := ⟨f.offset, max b.offset f.offset⟩
          processed := b.offset - f.offset, spliced := true }

/-- **A call of `build`** grows the table. -/
theorem build_grows (lex : Lexicon) (doc : Document) (a : Analysis) (limit : Nat)
    (hf : a.table.frontier = some f) (hle : f.offset ≤ doc.length) :
    ∃ a' report, a.build lex doc limit = some (a', report) ∧ Grows doc a f a' report := by
  have hline := doc.lineStart_le f.offset
  rcases a.build_cases lex doc limit hf (Nat.min_eq_left hle) with
    ⟨-, hbuild⟩ | ⟨stop, hbreak, hstop, hmoves, hbuild⟩
  · exact ⟨_, _, hbuild, .idle⟩
  · refine ⟨_, _, hbuild, ?_⟩
    have hsize := doc.size_window f.offset stop
    have hin := doc.le_lookahead hbreak.1
    have hfinds : Finds (doc.window f.offset stop) (doc.lineStart f.offset)
        (f.offset - doc.lineStart f.offset) f.state a.saved
        (scanBatch lex _ _ (doc.windowBound f.offset stop) _ f.state a.saved) :=
      scanBatch_finds _ _ _ _ _ _ _ (by omega)
    have hbase : doc.lineStart f.offset + (f.offset - doc.lineStart f.offset) = f.offset := by omega
    generalize scanBatch lex _ _ _ _ f.state a.saved = result at hfinds
    cases hfinds with
    | @reached bs pos' state' saved' hcourse hpos' hremains =>
        rw [hbase] at hcourse
        have hlong := hcourse.mono (Nat.le_refl _)
          (Nat.le_max_left (doc.lineStart f.offset + pos') stop)
        by_cases hend : doc.length ≤ max (doc.lineStart f.offset + pos') stop
        · simp only [if_pos hend]
          exact .ends hlong
        · simp only [if_neg hend]
          exact .goesOn hlong (by omega) (by omega) (hremains.trans (.discard _ _))
    | spliced hcourse hsaved hentries =>
        rw [hbase] at hcourse
        exact .meets hcourse hsaved hentries

/-- **A call of `build`** makes progress. -/
theorem Grows.advances (h : Grows doc a f a' report) (hf : a.table.frontier = some f) :
    Advances a a' report := by
  cases h with
  | idle => exact .completes rfl
  | ends _ => exact .completes rfl
  | goesOn _ hlt _ hremains => exact .goesOn hf rfl hlt (Remains.isSome hremains)
  | meets _ hs _ => exact .takesBack rfl (Option.isSome_iff_exists.2 ⟨_, hs⟩) rfl

/-! ## Frontiers inside the text -/

/-- No frontier lies past the end of the text. -/
structure Within (a : Analysis) (n : Nat) : Prop where
  table : ∀ f, a.table.frontier = some f → f.offset ≤ n
  saved : ∀ s f, a.saved = some s → s.frontier = some f → f.offset ≤ n

theorem within_done (entries : List Boundary) (n : Nat) :
    Within { table := { entries, frontier := none }, saved := none } n :=
  ⟨fun _ hf => absurd hf.symm (Option.some_ne_none _),
    fun _ _ hs => absurd hs.symm (Option.some_ne_none _)⟩

/-- A fresh table has its frontier inside any text. -/
theorem within_fresh (n : Nat) : fresh.Within n :=
  ⟨fun _ hf => by obtain rfl := Option.some.inj hf; exact Nat.zero_le n,
    fun _ _ hs => absurd hs.symm (Option.some_ne_none _)⟩

/-- Building keeps the frontier inside the text. -/
theorem Grows.within (h : Grows doc a f a' report) (hwithin : a.Within doc.length) :
    a'.Within doc.length := by
  cases h with
  | idle => exact within_done _ _
  | ends _ => exact within_done _ _
  | goesOn _ _ hq hremains =>
      refine ⟨?_, ?_⟩
      · intro f' hf'
        obtain rfl := Option.some.inj hf'
        exact Nat.le_of_lt hq
      · intro s' f' hs' hf'
        obtain ⟨s, -, hs, -, hfrontier⟩ := hremains s' hs'
        exact hwithin.saved s f' hs (hfrontier.trans hf')
  | @meets _ _ _ _ s _ hs _ =>
      exact ⟨fun f' hf' => hwithin.saved s f' hs hf',
        fun _ _ hs => absurd hs.symm (Option.some_ne_none _)⟩

/-- What is kept before a cut ends there or earlier. -/
theorem lastOffset_keptBefore_le (entries : List Boundary) (cut : Nat) :
    lastOffset (keptBefore entries cut) ≤ cut := by
  obtain ⟨-, -, hbefore, -⟩ := keptBefore_spec entries cut
  rw [lastOffset]
  cases hlast : (keptBefore entries cut).getLast? with
  | none => exact Nat.zero_le cut
  | some b => exact Nat.le_of_lt (hbefore b (List.mem_of_getLast? hlast))

/-- What an edit sets aside has the frontier that it is taken with, moved along. -/
theorem capture_within {text : Array Char} {e : Edit} {entries : List Boundary}
    {frontier : Option Frontier} {s : SavedTail} (hedit : Edited text doc.chars e)
    (hfrontier : ∀ f, frontier = some f → f.offset ≤ text.size)
    (hs : SavedTail.capture entries frontier e.oldStop e.delta = some s) :
    ∀ f, s.frontier = some f → f.offset ≤ doc.length := by
  obtain ⟨-, -, -, -, -, -, -, hmoved⟩ := SavedTail.capture_eq_some hs
  intro f hf
  obtain ⟨f₀, hf₀, rfl⟩ := Option.map_eq_some_iff.1 (hmoved.symm.trans hf)
  exact doc.length_eq ▸ hedit.shift_le (hfrontier f₀ hf₀)

/-- To cut back at an edit keeps the frontier inside the text. -/
theorem Within.invalidate {text : Array Char} {e : Edit} (h : a.Within text.size)
    (hedit : Edited text doc.chars e) : (a.invalidate doc e).Within doc.length := by
  have hcut := doc.lineStart_le e.pos
  refine ⟨?_, ?_⟩
  · intro f hf
    by_cases hpast : ∃ f, a.table.frontier = some f ∧ f.offset ≤ doc.lineStart e.pos
    · obtain ⟨f₀, hf₀, hle⟩ := hpast
      rw [invalidate_table_of_past hf₀ hle, hf₀] at hf
      obtain rfl := Option.some.inj hf
      omega
    · rw [invalidate_table_of_not_past hpast] at hf
      obtain rfl := Option.some.inj hf
      have := lastOffset_keptBefore_le a.table.entries (doc.lineStart e.pos)
      show lastOffset _ ≤ _
      omega
  · intro s f hs hf
    rcases invalidate_saved hs with ⟨s₀, hs₀, hadjust⟩ | hcapture
    · exact capture_within hedit (h.saved s₀ · hs₀) hadjust f hf
    · exact capture_within hedit h.table hcapture f hf

/-- What absorbing an edit does to the frontier, and to what is set aside. -/
theorem update?_frontier {e : Edit} {budget : Nat} (h : a.update? lex doc e budget = some a') :
    a'.table.frontier = a.table.frontier.map (fun f => { f with offset := shift f.offset e.delta }) ∧
      a'.saved = a.saved.bind (·.adjust e.oldStop e.delta) := by
  rw [update?] at h
  by_cases hshort : a.table.frontier.any (fun f => f.offset ≤ e.oldStop ||
      shift f.offset e.delta ≤ doc.snapForward (doc.lineEnd e.newStop)) = true
  · simp only [hshort, if_true] at h
    exact absurd h.symm (Option.some_ne_none _)
  · simp only [hshort, Bool.false_eq_true, if_false] at h
    split at h
    · exact absurd h.symm (Option.some_ne_none _)
    · obtain ⟨-, h⟩ := Option.ite_none_right_eq_some.1 h
      obtain rfl := Option.some.inj h
      exact ⟨rfl, rfl⟩

/-- To absorb an edit keeps the frontier inside the text. -/
theorem Within.update? {text : Array Char} {e : Edit} {budget : Nat} (h : a.Within text.size)
    (hedit : Edited text doc.chars e) (hup : a.update? lex doc e budget = some a') :
    a'.Within doc.length := by
  obtain ⟨hfrontier, hsaved⟩ := update?_frontier hup
  refine ⟨?_, ?_⟩
  · intro f hf
    obtain ⟨f₀, hf₀, rfl⟩ := Option.map_eq_some_iff.1 (hfrontier.symm.trans hf)
    exact doc.length_eq ▸ hedit.shift_le (h.table f₀ hf₀)
  · intro s f hs hf
    obtain ⟨s₀, hs₀, hadjust⟩ := Option.bind_eq_some_iff.1 (hsaved.symm.trans hs)
    exact capture_within hedit (h.saved s₀ · hs₀) hadjust f hf

/-! ## Tables in order -/

/-- The table is a course from the start of the text to its frontier, and what is set aside is a
    course to a frontier of its own. -/
structure Orderly (a : Analysis) : Prop where
  table : ∃ q state, Course 0 .outside a.table.entries q state ∧
    ∀ f, a.table.frontier = some f → f = ⟨q, state⟩
  saved : ∀ s, a.saved = some s → ∃ p state q state', Course p state s.entries q state' ∧
    ∀ f, s.frontier = some f → f = ⟨q, state'⟩

/-- A complete table is orderly when it is a course. -/
theorem Orderly.done {entries : List Boundary} {q : Nat} {state : ScanState}
    (h : Course 0 .outside entries q state) :
    Orderly { table := { entries, frontier := none }, saved := none } :=
  ⟨⟨q, state, h, fun _ hf => absurd hf.symm (Option.some_ne_none _)⟩,
    fun _ hs => absurd hs.symm (Option.some_ne_none _)⟩

theorem orderly_fresh : fresh.Orderly :=
  ⟨⟨0, .outside, ⟨Nat.le_refl 0, rfl⟩, fun _ hf => (Option.some.inj hf).symm⟩,
    fun _ hs => absurd hs.symm (Option.some_ne_none _)⟩

/-- Growing keeps the table in order. -/
theorem Grows.orderly (h : Grows doc a f a' report) (hf : a.table.frontier = some f)
    (horderly : a.Orderly) : a'.Orderly := by
  obtain ⟨q₀, state₀, hcourse₀, hfrontier₀⟩ := horderly.table
  obtain rfl := hfrontier₀ f hf
  cases h with
  | idle => exact .done hcourse₀
  | ends hcourse => exact .done (hcourse₀.append hcourse)
  | goesOn hcourse _ _ hremains =>
      refine ⟨⟨_, _, hcourse₀.append hcourse, fun _ hf => (Option.some.inj hf).symm⟩, ?_⟩
      intro s' hs'
      -- what is left of the boundaries set aside is the end of a course
      obtain ⟨s, front, hs, hentries, hfrontier⟩ := hremains s' hs'
      obtain ⟨p, state, q, state', hsaved, hend⟩ := horderly.saved s hs
      rw [hentries] at hsaved
      obtain ⟨mid, at', -, hrest⟩ := hsaved.split
      exact ⟨mid, at', q, state', hrest, fun f' hf' => hend f' (hfrontier.trans hf')⟩
  | meets hcourse hs hentries =>
      -- the two courses have one boundary in common, and there they are joined
      obtain ⟨p, state, q, state', hsaved, hend⟩ := horderly.saved _ hs
      rw [hentries] at hsaved
      obtain ⟨mid, at', -, -, -, hbehind⟩ := hsaved.split
      exact ⟨⟨q, state', (hcourse₀.append hcourse).append hbehind, hend⟩,
        fun _ hs => absurd hs.symm (Option.some_ne_none _)⟩

/-- What an edit sets aside is a course. -/
theorem capture_course {e : Edit} {entries : List Boundary} {frontier : Option Frontier}
    {s : SavedTail} {p q : Nat} {state state' : ScanState}
    (hcourse : Course p state entries q state') (hend : ∀ f, frontier = some f → f = ⟨q, state'⟩)
    (hs : SavedTail.capture entries frontier e.oldStop e.delta = some s) :
    ∃ p state q state', Course p state s.entries q state' ∧
      ∀ f, s.frontier = some f → f = ⟨q, state'⟩ := by
  obtain ⟨-, front, b, rest, hentries, hb, hmoved, hfrontier⟩ := SavedTail.capture_eq_some hs
  have hstops := e.stops
  rw [hentries] at hcourse
  obtain ⟨mid, at', -, htail⟩ := hcourse.split
  refine ⟨shift b.offset e.delta, at', shift q e.delta, state', ?_, ?_⟩
  · rw [hmoved]
    exact htail.from_first.shifted (by omega)
  · intro f hf
    obtain ⟨f₀, hf₀, rfl⟩ := Option.map_eq_some_iff.1 (hfrontier.symm.trans hf)
    rw [hend f₀ hf₀]

/-- Cutting back keeps the table in order. -/
theorem Orderly.invalidate (h : a.Orderly) (doc : Document) (e : Edit) :
    (a.invalidate doc e).Orderly := by
  obtain ⟨q, state, hcourse, hend⟩ := h.table
  refine ⟨?_, ?_⟩
  · by_cases hpast : ∃ f, a.table.frontier = some f ∧ f.offset ≤ doc.lineStart e.pos
    · obtain ⟨f, hf, hle⟩ := hpast
      rw [invalidate_table_of_past hf hle]
      exact h.table
    · rw [invalidate_table_of_not_past hpast]
      refine ⟨lastOffset (keptBefore a.table.entries (doc.lineStart e.pos)), .outside, ?_,
        fun f hf => (Option.some.inj hf).symm⟩
      show Course 0 .outside (keptBefore a.table.entries (doc.lineStart e.pos)) _ _
      obtain ⟨rest, hentries, -, hlast⟩ := keptBefore_spec a.table.entries (doc.lineStart e.pos)
      rcases hlast with hnil | ⟨init, b, hinit, hclose⟩
      · rw [hnil]
        exact ⟨Nat.zero_le _, rfl⟩
      · rw [hentries, hinit] at hcourse
        obtain ⟨mid, at', hkept, -⟩ := hcourse.split
        have hpast : b.past = b.offset := by
          rw [Boundary.past, Boundary.opens, hclose]
          rfl
        have hstate : b.state = .outside := by
          rw [Boundary.state, hclose]
        have hend := hkept.state_last.1
        rw [hpast, hstate] at hend
        rw [hinit, lastOffset, List.getLast?_concat]
        exact hend
  · intro s hs
    rcases invalidate_saved hs with ⟨s₀, hs₀, hadjust⟩ | hcapture
    · obtain ⟨p, state₀, q₀, state', hsaved, hend'⟩ := h.saved s₀ hs₀
      exact capture_course hsaved hend' hadjust
    · exact capture_course hcourse hend hcapture

/-! ## Runs -/

/-- One turn of a run: starting over, or a move. -/
inductive Turn where
  | reset
  | move (m : Move)

/-- A text and its analysis after a turn. -/
def Turn.apply (lex : Lexicon) (s : Document × Analysis) : Turn → Document × Analysis
  | .reset => (s.1, fresh)
  | .move m => m.apply lex s

/-- Every turn keeps the analysis orderly. -/
theorem Orderly.turn {s : Document × Analysis} (h : s.2.Orderly) (hwithin : s.2.Within s.1.length)
    (lex : Lexicon) (t : Turn) :
    (t.apply lex s).2.Orderly ∧ (t.apply lex s).2.Within (t.apply lex s).1.length := by
  cases t with
  | reset => exact ⟨orderly_fresh, within_fresh _⟩
  | move m =>
      cases m with
      | change c =>
          rw [s.1.length_eq] at hwithin
          exact ⟨h.invalidate _ _, hwithin.invalidate (c.edited s.1)⟩
      | build limit =>
          show (((s.2.build lex s.1 limit).map (·.1)).getD s.2).Orderly ∧
            (((s.2.build lex s.1 limit).map (·.1)).getD s.2).Within s.1.length
          cases hf : s.2.table.frontier with
          | none =>
              rw [build_of_none hf]
              exact ⟨h, hwithin⟩
          | some f =>
              obtain ⟨a', report, hbuild, hgrows⟩ :=
                build_grows lex s.1 s.2 limit hf (hwithin.table f hf)
              rw [hbuild]
              exact ⟨hgrows.orderly hf h, hgrows.within hwithin⟩

/-- A run of turns keeps the analysis orderly. -/
theorem Orderly.turns {s : Document × Analysis} (h : s.2.Orderly)
    (hwithin : s.2.Within s.1.length) (lex : Lexicon) (turns : List Turn) :
    (turns.foldl (Turn.apply lex) s).2.Orderly := by
  induction turns generalizing s with
  | nil => exact h
  | cons t rest ih =>
      obtain ⟨hnext, hwithin'⟩ := h.turn hwithin lex t
      exact ih hnext hwithin'

end Analysis

/-! ## What it means for a table -/

/-- Boundaries that open and close by turns, in order and with no empty region. -/
structure InOrder (bs : List Boundary) : Prop where
  alternates : bs.IsChain fun b b' => b'.opens = !b.opens
  ascends    : bs.Pairwise fun b b' => b.offset ≤ b'.offset
  regions    : bs.IsChain fun b b' => b.opens = true → b.offset < b'.offset
  depths     : ∀ b ∈ bs, b.depth = if b.opens then 1 else 0

/-- What follows a boundary turns from its state, and lies past it. -/
theorem Course.head?_turns {q : Nat} {state' : ScanState} {b b' : Boundary} {rest : List Boundary}
    (h : Course b.past b.state rest q state') (hb' : b' ∈ rest.head?) :
    b'.opens = (!b.opens) ∧ b.past ≤ b'.offset := by
  cases rest with
  | nil => exact absurd hb' (by simp)
  | cons b₁ rest =>
      obtain rfl : b₁ = b' := by simpa using hb'
      obtain ⟨hle, hturn, -⟩ := h
      refine ⟨?_, hle⟩
      rw [Boundary.opens_eq, Boundary.opens_eq]
      by_cases hout : b.state = .outside
      · simp [hout, hturn.state_iff.1 hout]
      · have : b₁.state = .outside :=
          Classical.byContradiction fun hin => hout (hturn.state_iff.2 hin)
        simp [hout, this]

/-- The boundaries of a course are in order. -/
theorem Course.inOrder {p q : Nat} {state state' : ScanState} {bs : List Boundary}
    (h : Course p state bs q state') : InOrder bs := by
  induction bs generalizing p state with
  | nil => exact ⟨.nil, .nil, .nil, by simp⟩
  | cons b rest ih =>
      obtain ⟨-, hturn, hrest⟩ := h
      obtain ⟨halternates, hascends, hregions, hdepths⟩ := ih hrest
      have hnext : ∀ b' ∈ rest.head?, b'.opens = (!b.opens) ∧ b.past ≤ b'.offset :=
        fun _ hb' => hrest.head?_turns hb'
      refine ⟨List.isChain_cons.2 ⟨fun b' hb' => (hnext b' hb').1, halternates⟩,
        List.pairwise_cons.2 ⟨fun b' hb' => ?_, hascends⟩,
        List.isChain_cons.2 ⟨fun b' hb' hopens => ?_, hregions⟩,
        List.forall_mem_cons.2 ⟨hturn.depth, hdepths⟩⟩
      · exact Nat.le_trans b.offset_le_past (hrest.bounds hb').1
      · have := (hnext b' hb').2
        rw [Boundary.past, if_pos hopens] at this
        exact this

namespace Analysis

/-- **Every table is in order, whatever the patterns match.**  After any run of resets, changes of
    the text that cut the table back, and calls of `build`, the table begins with an opening and
    alternates, in order and with no empty region; it ends at or before its frontier, whose state
    is that of its last boundary.  What is set aside is in order as well.  And no scan of a batch
    goes on without end, as each boundary that it finds uses up one of the steps left. -/
theorem table_inOrder (lex : Lexicon) (doc : Document) (turns : List Turn) :
    let a := (turns.foldl (Turn.apply lex) (doc, fresh)).2
    (∀ b ∈ a.table.entries.head?, b.opens = true) ∧ InOrder a.table.entries ∧
      (∀ f ∈ a.table.frontier, (∀ b ∈ a.table.entries, b.offset ≤ f.offset) ∧
        ∀ tag, f.state = .inside tag ↔ ∃ b ∈ a.table.entries.getLast?, b.tag = some tag) ∧
      (∀ s ∈ a.saved, InOrder s.entries) ∧
      ∀ window base bound pos state saved,
        (scanBatch lex window base bound pos state saved).1.length ≤
          Lexicon.stepsLeft window pos state := by
  intro a
  have horderly : a.Orderly := orderly_fresh.turns (within_fresh doc.length) lex turns
  obtain ⟨q, state, hcourse, hend⟩ := horderly.table
  refine ⟨?_, hcourse.inOrder, fun f hf => ⟨?_, ?_⟩, ?_, length_scanBatch_le lex⟩
  · intro b hb
    cases hentries : a.table.entries with
    | nil =>
        rw [hentries] at hb
        exact absurd hb (by simp)
    | cons b₁ rest =>
        rw [hentries] at hb hcourse
        obtain rfl : b₁ = b := by simpa using hb
        have hin := hcourse.2.1.state_iff.1 rfl
        rw [Boundary.opens_eq]
        simpa using hin
  · intro b hb
    obtain rfl := hend f hf
    exact Nat.le_trans b.offset_le_past (hcourse.bounds hb).2
  · intro tag
    obtain rfl := hend f hf
    rcases List.eq_nil_or_concat a.table.entries with hnil | ⟨init, b, hinit⟩
    · rw [hnil] at hcourse ⊢
      obtain ⟨-, rfl⟩ := hcourse
      simp
    · rw [List.concat_eq_append] at hinit
      rw [hinit] at hcourse ⊢
      rw [hcourse.state_last.2, List.getLast?_concat]
      obtain ⟨o, tag', depth⟩ := b
      cases tag' <;> simp [Boundary.state]
  · intro s hs
    obtain ⟨p, state, q, state', hsaved, -⟩ := horderly.saved s hs
    exact hsaved.inOrder

end Analysis

end Highlighter
