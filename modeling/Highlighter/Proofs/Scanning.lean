import Highlighter.Boundary
import Highlighter.Proofs.Delimiters

/-! # Scanning — the boundaries of a text, one position at a time

    `boundaries` is what one scan of a text finds, and it is what every table is held
    against.  A scan is taken apart into moves: at a position where no delimiter begins it
    goes on by one, else it goes past the delimiter and leaves a boundary.  `Scans` relates
    two places of a scan and the boundaries between them.  Scans can be joined, cut at a
    boundary or at a line start, and carried over to another text that looks alike. -/

namespace Highlighter

@[simp] theorem shift_zero (o : Nat) : shift o 0 = o := by
  show ((o : Int) + 0).toNat = o
  omega

/-- What follows a place follows it just as far where that place is moved to. -/
theorem shift_add {o : Nat} {delta : Int} (h : 0 ≤ (o : Int) + delta) (n : Nat) :
    shift (o + n) delta = shift o delta + n := by
  show ((o + n : Nat) + delta : Int).toNat = ((o : Int) + delta).toNat + n
  omega

/-- To move on is to add. -/
theorem shift_nat (o base : Nat) : shift o (base : Int) = base + o := by
  show ((o : Int) + base).toNat = base + o
  omega

namespace Boundary

/-- The state that a boundary leads to. -/
def state (b : Boundary) : ScanState :=
  match b.tag with
  | none => .outside
  | some tag => .inside tag

@[simp] theorem into_offset (o : Nat) (state : ScanState) : (into o state).offset = o := by
  cases state <;> rfl

@[simp] theorem into_state (o : Nat) (state : ScanState) : (into o state).state = state := by
  cases state <;> rfl

/-- A boundary opens when it leads into a region. -/
theorem into_opens (o : Nat) (state : ScanState) : (into o state).opens = (state != .outside) := by
  cases state <;> rfl

theorem into_depth (o : Nat) (state : ScanState) :
    (into o state).depth = if (into o state).opens then 1 else 0 := by
  cases state <;> rfl

/-- A boundary opens when the state behind it is that of a region. -/
theorem opens_eq (b : Boundary) : b.opens = (b.state != .outside) := by
  obtain ⟨o, tag, depth⟩ := b
  cases tag <;> rfl

@[simp] theorem shifted_state (b : Boundary) (delta : Int) : (b.shifted delta).state = b.state := rfl

@[simp] theorem shifted_opens (b : Boundary) (delta : Int) : (b.shifted delta).opens = b.opens := rfl

@[simp] theorem shifted_offset (b : Boundary) (delta : Int) :
    (b.shifted delta).offset = shift b.offset delta := rfl

@[simp] theorem shifted_zero (b : Boundary) : b.shifted 0 = b := by
  show { b with offset := shift b.offset 0 } = b
  rw [shift_zero]

end Boundary

namespace Lexicon

variable (lex : Lexicon) (text : Array Char)

/-- The boundary that a delimiter leaves: a region opens where the delimiter begins and closes
    where it ends. -/
def mark (q : Nat) (d : Nat × ScanState) : Boundary := Boundary.into (stepOver q d).offset d.2

/-- What one scan finds from a position on. -/
def boundaries (p : Nat) (state : ScanState) : List Boundary :=
  (lex.scan text p state).map fun s => Boundary.into s.offset s.state

variable {lex text}

@[simp] theorem stepOver_next (q : Nat) (d : Nat × ScanState) : (stepOver q d).next = q + d.1 := by
  obtain ⟨n, state⟩ := d
  cases state <;> rfl

@[simp] theorem stepOver_state (q : Nat) (d : Nat × ScanState) : (stepOver q d).state = d.2 := by
  obtain ⟨n, state⟩ := d
  cases state <;> rfl

@[simp] theorem stepOver_textStart (q : Nat) (d : Nat × ScanState) :
    (stepOver q d).textStart = q := by
  obtain ⟨n, state⟩ := d
  cases state <;> rfl

@[simp] theorem mark_state (q : Nat) (d : Nat × ScanState) : (mark q d).state = d.2 :=
  Boundary.into_state _ _

/-- A region opens where its delimiter begins and closes where its delimiter ends. -/
theorem mark_offset (q : Nat) (d : Nat × ScanState) :
    (mark q d).offset = if (mark q d).opens then q else q + d.1 := by
  obtain ⟨n, state⟩ := d
  cases state <;> rfl

/-- The mark of a delimiter is not before it. -/
theorem le_mark (q : Nat) (d : Nat × ScanState) : q ≤ (mark q d).offset := by
  rw [mark_offset]
  split <;> omega

theorem mark_le (q : Nat) (d : Nat × ScanState) : (mark q d).offset ≤ q + d.1 := by
  rw [mark_offset]
  split <;> omega

/-- The mark of a delimiter lies inside the text. -/
theorem mark_le_size {q : Nat} {state : ScanState} {d : Nat × ScanState}
    (hd : lex.delimiterAt? text q state = some d) : (mark q d).offset ≤ text.size :=
  Nat.le_trans (mark_le q d) (delimiterAt?_bounds hd).1

/-! ## Moves of a scan -/

/-- A scan ends when no step can be taken. -/
theorem scan_of_step_none {p : Nat} {state : ScanState} (h : lex.step text p state = none) :
    lex.scan text p state = [] := by
  rw [scan]
  split
  · rfl
  · rename_i hs
    rw [h] at hs
    exact absurd hs (Option.some_ne_none _).symm

/-- A scan takes a step and goes on behind it. -/
theorem scan_of_step_some {p : Nat} {state : ScanState} {s : Step}
    (h : lex.step text p state = some s) :
    lex.scan text p state = s :: lex.scan text s.next s.state := by
  rw [scan]
  split
  · rename_i hs
    rw [h] at hs
    exact absurd hs (Option.some_ne_none s)
  · rename_i hs
    rw [h] at hs
    rw [← Option.some.inj hs]

/-- The first delimiter ahead of a position where none begins is ahead of the next one. -/
theorem step_of_none (hlawful : lex.Lawful) {p : Nat} {state : ScanState}
    (h : lex.delimiterAt? text p state = none) :
    lex.step text p state = lex.step text (p + 1) state := by
  rw [step_eq_firstFrom hlawful, step_eq_firstFrom hlawful]
  exact firstFrom_of_none (by rw [h]; rfl)

/-- Where a delimiter stands the step goes over it. -/
theorem step_of_some (hlawful : lex.Lawful) {p : Nat} {state : ScanState} {d : Nat × ScanState}
    (hp : p ≤ text.size) (h : lex.delimiterAt? text p state = some d) :
    lex.step text p state = some (stepOver p d) := by
  rw [step_eq_firstFrom hlawful]
  exact firstFrom_of_some hp (by rw [h]; rfl)

/-- No step is taken past the end. -/
theorem step_of_lt {p : Nat} {state : ScanState} (h : text.size < p) :
    lex.step text p state = none := by
  cases hs : lex.step text p state with
  | none => rfl
  | some s =>
      have hbounds := step_bounds hs
      omega

theorem boundaries_of_lt {p : Nat} {state : ScanState} (h : text.size < p) :
    lex.boundaries text p state = [] := by
  show (lex.scan text p state).map _ = []
  rw [scan_of_step_none (step_of_lt h), List.map_nil]

/-- A position without a delimiter can be left out. -/
theorem boundaries_of_none (hlawful : lex.Lawful) {p : Nat} {state : ScanState}
    (h : lex.delimiterAt? text p state = none) :
    lex.boundaries text p state = lex.boundaries text (p + 1) state := by
  show (lex.scan text p state).map _ = (lex.scan text (p + 1) state).map _
  have hstep := step_of_none hlawful h
  cases hs : lex.step text p state with
  | none => rw [scan_of_step_none hs, scan_of_step_none (hstep.symm.trans hs)]
  | some s => rw [scan_of_step_some hs, scan_of_step_some (hstep.symm.trans hs)]

/-- A scan that stands at a delimiter marks it and goes on behind it. -/
theorem boundaries_of_some (hlawful : lex.Lawful) {p : Nat} {state : ScanState}
    {d : Nat × ScanState} (hp : p ≤ text.size) (h : lex.delimiterAt? text p state = some d) :
    lex.boundaries text p state = mark p d :: lex.boundaries text (p + d.1) d.2 := by
  show (lex.scan text p state).map _ = _
  rw [scan_of_step_some (step_of_some hlawful hp h), List.map_cons, stepOver_next, stepOver_state]
  rfl

/-- Induction along a scan: past the text, over a position, past a delimiter. -/
theorem scan_induction (lex : Lexicon) (text : Array Char) {motive : Nat → ScanState → Prop}
    (beyond : ∀ p state, text.size < p → motive p state)
    (skip : ∀ p state, p ≤ text.size → lex.delimiterAt? text p state = none →
      motive (p + 1) state → motive p state)
    (take : ∀ p state d, p ≤ text.size → lex.delimiterAt? text p state = some d →
      motive (p + d.1) d.2 → motive p state) (p : Nat) (state : ScanState) : motive p state := by
  -- an empty delimiter closes a region, so what is left of the text and being inside count
  induction hn : 2 * (text.size + 1 - p) + (if state = .outside then 0 else 1)
    using Nat.strongRecOn generalizing p state with
  | _ n ih =>
      subst hn
      by_cases hp : text.size < p
      · exact beyond p state hp
      · have hle : p ≤ text.size := Nat.le_of_not_lt hp
        cases hd : lex.delimiterAt? text p state with
        | none => exact skip p state hle hd (ih _ (by omega) (p + 1) state rfl)
        | some d =>
            obtain ⟨hsize, hpos, hstate⟩ := delimiterAt?_bounds hd
            refine take p state d hle hd (ih _ ?_ (p + d.1) d.2 rfl)
            by_cases hout : state = .outside
            · have := hpos hout
              rw [if_pos hout, if_neg (hstate.1 hout)]
              omega
            · have hin : d.2 = .outside := Classical.byContradiction fun h => hout (hstate.2 h)
              rw [if_neg hout, if_pos hin]
              omega

/-! ## Scans between two places -/

/-- A scan from `p` in a state comes to `q` in a state and leaves boundaries on the way. -/
inductive Scans (lex : Lexicon) (text : Array Char) :
    (p : Nat) → ScanState → List Boundary → (q : Nat) → ScanState → Prop
  | done {p : Nat} {state : ScanState} : Scans lex text p state [] p state
  | skip {p q : Nat} {state state' : ScanState} {bs : List Boundary} : p ≤ text.size →
      lex.delimiterAt? text p state = none → Scans lex text (p + 1) state bs q state' →
      Scans lex text p state bs q state'
  | take {p q : Nat} {state state' : ScanState} {bs : List Boundary} {d : Nat × ScanState} :
      p ≤ text.size → lex.delimiterAt? text p state = some d →
      Scans lex text (p + d.1) d.2 bs q state' → Scans lex text p state (mark p d :: bs) q state'

namespace Scans

variable {p q r : Nat} {state state' state'' : ScanState} {bs bs' : List Boundary}

/-- The boundaries of a text are those up to a place and those from there on. -/
theorem boundaries (hlawful : lex.Lawful) (h : lex.Scans text p state bs q state') :
    lex.boundaries text p state = bs ++ lex.boundaries text q state' := by
  induction h with
  | done => rfl
  | skip _ hd _ ih => rw [boundaries_of_none hlawful hd, ih]
  | take hp hd _ ih => rw [boundaries_of_some hlawful hp hd, ih, List.cons_append]

/-- A scan that has come past the text has found all there is. -/
theorem eq_boundaries (hlawful : lex.Lawful)
    (h : lex.Scans text p state bs (text.size + 1) state') : bs = lex.boundaries text p state := by
  rw [h.boundaries hlawful, boundaries_of_lt (Nat.lt_succ_self _), List.append_nil]

/-- Scans one after the other are one scan. -/
theorem trans (h : lex.Scans text p state bs q state')
    (h' : lex.Scans text q state' bs' r state'') :
    lex.Scans text p state (bs ++ bs') r state'' := by
  induction h with
  | done => exact h'
  | skip hp hd _ ih => exact .skip hp hd (ih h')
  | take hp hd _ ih => exact .take hp hd (ih h')

/-- A scan does not go back. -/
theorem le (h : lex.Scans text p state bs q state') : p ≤ q := by
  induction h with
  | done => exact Nat.le_refl _
  | skip _ _ _ ih => omega
  | take _ _ _ ih => omega

/-- A scan leaves boundaries between where it begins and where it ends. -/
theorem le_offset (h : lex.Scans text p state bs q state') {b : Boundary} (hb : b ∈ bs) :
    p ≤ b.offset ∧ b.offset ≤ q := by
  induction h with
  | done => exact absurd hb List.not_mem_nil
  | skip _ _ _ ih =>
      have := ih hb
      omega
  | @take p q _ _ _ d _ _ htail ih =>
      rcases List.mem_cons.1 hb with rfl | hmem
      · have h1 := le_mark p d
        have h2 := mark_le p d
        have h3 := htail.le
        omega
      · have := ih hmem
        omega

/-- A scan without boundaries stays in its state. -/
theorem state_eq (h : lex.Scans text p state [] q state') : state = state' := by
  generalize hbs : ([] : List Boundary) = bs at h
  induction h with
  | done => rfl
  | skip _ _ _ ih => exact ih hbs
  | take => exact absurd hbs.symm (List.cons_ne_nil _ _)

/-- The last boundary leads to the state that the scan comes to. -/
theorem state_of_getLast? (h : lex.Scans text p state bs q state') {b : Boundary}
    (hb : bs.getLast? = some b) : b.state = state' := by
  induction h with
  | done => exact absurd hb (Option.some_ne_none b).symm
  | skip _ _ _ ih => exact ih hb
  | @take p q _ _ bs d _ _ htail ih =>
      cases bs with
      | nil =>
          rw [List.getLast?_singleton] at hb
          rw [← Option.some.inj hb, mark_state]
          exact htail.state_eq
      | cons b' rest =>
          rw [List.getLast?_cons_cons] at hb
          exact ih hb

/-- Scans with boundaries to the same states come to the same state. -/
theorem state_eq_of_map (h : lex.Scans text p state bs q state') {text' : Array Char}
    {p' q' : Nat} {bs' : List Boundary} (h' : lex.Scans text' p' state bs' q' state'')
    (hsame : bs.map Boundary.state = bs'.map Boundary.state) : state' = state'' := by
  rcases List.eq_nil_or_concat bs with rfl | ⟨init, b, rfl⟩
  · obtain rfl := List.map_eq_nil_iff.1 hsame.symm
    exact h.state_eq.symm.trans h'.state_eq
  · rcases List.eq_nil_or_concat bs' with rfl | ⟨init', b', rfl⟩
    · simp at hsame
    · simp only [List.concat_eq_append, List.map_append, List.map_cons, List.map_nil] at hsame h h'
      have hb := (List.append_inj' hsame rfl).2
      rw [← h.state_of_getLast? List.getLast?_concat, ← h'.state_of_getLast? List.getLast?_concat]
      exact (List.cons.inj hb).1

end Scans

/-- A scan goes over positions where no delimiter begins. -/
theorem Scans.skips {p q : Nat} {state : ScanState} (hpq : p ≤ q) (hq : q ≤ text.size + 1)
    (h : ∀ i, p ≤ i → i < q → lex.delimiterAt? text i state = none) :
    lex.Scans text p state [] q state := by
  obtain ⟨n, rfl⟩ := Nat.exists_eq_add_of_le hpq
  clear hpq
  induction n generalizing p with
  | zero => exact .done
  | succ n ih =>
      refine .skip (by omega) (h p (Nat.le_refl p) (by omega)) ?_
      have hadd : p + (n + 1) = p + 1 + n := by omega
      rw [hadd] at hq h ⊢
      exact ih hq fun i hi hlt => h i (by omega) hlt

/-- A scan comes to the end of the text. -/
theorem exists_scans (hlawful : lex.Lawful) (text : Array Char) (p : Nat) (state : ScanState)
    (hp : p ≤ text.size + 1) :
    ∃ state', lex.Scans text p state (lex.boundaries text p state) (text.size + 1) state' := by
  induction p, state using scan_induction lex text with
  | beyond p state h =>
      obtain rfl : p = text.size + 1 := by omega
      rw [boundaries_of_lt h]
      exact ⟨state, .done⟩
  | skip p state hle hd ih =>
      obtain ⟨state', h⟩ := ih (by omega)
      rw [boundaries_of_none hlawful hd]
      exact ⟨state', .skip hle hd h⟩
  | take p state d hle hd ih =>
      obtain ⟨state', h⟩ := ih (by
        have := (delimiterAt?_bounds hd).1
        omega)
      rw [boundaries_of_some hlawful hle hd]
      exact ⟨state', .take hle hd h⟩

/-! ## Cutting a scan -/

/-- A scan that leaves a boundary takes it somewhere: it comes to where the delimiter begins, and
    goes on behind it. -/
theorem Scans.split {p q : Nat} {state state' : ScanState} {bs bs' : List Boundary} {b : Boundary}
    (h : lex.Scans text p state (bs ++ b :: bs') q state') :
    ∃ o at' d, lex.Scans text p state bs o at' ∧ o ≤ text.size ∧
      lex.delimiterAt? text o at' = some d ∧ mark o d = b ∧
      lex.Scans text (o + d.1) d.2 bs' q state' := by
  generalize hbs : bs ++ b :: bs' = all at h
  induction h generalizing bs with
  | done => exact absurd hbs (by simp)
  | skip hp hd _ ih =>
      obtain ⟨o, at', d, hscan, hrest⟩ := ih hbs
      exact ⟨o, at', d, .skip hp hd hscan, hrest⟩
  | @take p q state state' rest d hp hd htail ih =>
      cases bs with
      | nil =>
          obtain ⟨hb, hrest⟩ := List.cons.inj hbs
          subst hrest
          exact ⟨p, state, d, .done, hp, hd, hb.symm, htail⟩
      | cons b' bs =>
          obtain ⟨hb, hrest⟩ := List.cons.inj hbs
          obtain ⟨o, at', d', hscan, hrest⟩ := ih hrest
          subst hb
          exact ⟨o, at', d', .take hp hd hscan, hrest⟩

/-- Behind a close a scan goes on from the close. -/
theorem Scans.append_close {p q : Nat} {state state' : ScanState} {bs bs' : List Boundary}
    {b : Boundary} (h : lex.Scans text p state (bs ++ b :: bs') q state') (hb : b.tag = none) :
    lex.Scans text p state (bs ++ [b]) b.offset .outside ∧
      lex.Scans text b.offset .outside bs' q state' := by
  obtain ⟨o, at', d, hscan, hsize, hd, rfl, htail⟩ := h.split
  have hstate : d.2 = .outside := by
    rw [← mark_state o d]
    simp only [Boundary.state, hb]
  have hoffset : o + d.1 = (mark o d).offset := by
    rw [mark_offset, Boundary.opens, hb]
    simp
  rw [hoffset, hstate] at htail
  refine ⟨hscan.trans (.take hsize hd ?_), htail⟩
  rw [hoffset, hstate]
  exact .done

/-- No line reaches a line start behind it. -/
theorem lineStop_lt {p L : Nat} (hL : IsLineStart text L) (hp : p < L) (hsize : L ≤ text.size) :
    lineStop text p < L := by
  have hnl := hL.getElem? (by omega) hsize
  have : lineStop text p ≤ L - 1 := lineStop_le (by omega) (.inr hnl)
  omega

/-- A delimiter before a line start ends before it. -/
theorem delimiterAt?_lt (hlocal : lex.LineLocal) {o L : Nat} {state : ScanState}
    {d : Nat × ScanState} (hL : IsLineStart text L) (ho : o < L) (hsize : L ≤ text.size)
    (hd : lex.delimiterAt? text o state = some d) : o + d.1 < L :=
  Nat.lt_of_le_of_lt (delimiterAt?_within hlocal (by omega) hd) (lineStop_lt hL ho hsize)

/-- A scan comes by every line start on its way. -/
theorem Scans.cut (hlocal : lex.LineLocal) {p q L : Nat} {state state' : ScanState}
    {bs : List Boundary} (h : lex.Scans text p state bs q state') (hL : IsLineStart text L)
    (hsize : L ≤ text.size) (hpL : p ≤ L) (hLq : L ≤ q) :
    ∃ bs₁ bs₂ at', bs = bs₁ ++ bs₂ ∧ lex.Scans text p state bs₁ L at' ∧
      lex.Scans text L at' bs₂ q state' ∧ (∀ b ∈ bs₁, b.offset < L) ∧ ∀ b ∈ bs₂, L ≤ b.offset := by
  induction h with
  | @done p state =>
      obtain rfl : p = L := by omega
      exact ⟨[], [], state, rfl, .done, .done, by simp, by simp⟩
  | @skip p q state state' bs hp hd htail ih =>
      rcases Nat.eq_or_lt_of_le hpL with rfl | hlt
      · have hscan := Scans.skip hp hd htail
        exact ⟨[], bs, state, rfl, .done, hscan, by simp, fun b hb => (hscan.le_offset hb).1⟩
      · obtain ⟨bs₁, bs₂, at', rfl, hscan, hrest⟩ := ih hlt hLq
        exact ⟨bs₁, bs₂, at', rfl, .skip hp hd hscan, hrest⟩
  | @take p q state state' bs d hp hd htail ih =>
      rcases Nat.eq_or_lt_of_le hpL with rfl | hlt
      · have hscan := Scans.take hp hd htail
        exact ⟨[], mark p d :: bs, state, rfl, .done, hscan, by simp,
          fun b hb => (hscan.le_offset hb).1⟩
      -- a delimiter that begins before the line start ends before it, so none reaches over it
      · have hend := delimiterAt?_lt hlocal hL hlt hsize hd
        obtain ⟨bs₁, bs₂, at', rfl, hscan, htail', hbefore, hafter⟩ := ih (Nat.le_of_lt hend) hLq
        refine ⟨mark p d :: bs₁, bs₂, at', rfl, .take hp hd hscan, htail', ?_, hafter⟩
        intro b hb
        rcases List.mem_cons.1 hb with rfl | hb
        · have := mark_le p d
          omega
        · exact hbefore b hb

/-! ## Carrying a scan over -/

/-- The mark of a delimiter that is moved is moved along. -/
theorem mark_shifted {o : Nat} {d : Nat × ScanState} {delta : Int} (h : 0 ≤ (o : Int) + delta) :
    (mark o d).shifted delta = mark (shift o delta) d := by
  obtain ⟨n, state⟩ := d
  cases state with
  | outside =>
      show Boundary.closing (shift (o + n) delta) = .closing (shift o delta + n)
      rw [shift_add h]
  | inside tag => rfl

theorem mark_add (base o : Nat) (d : Nat × ScanState) :
    (mark o d).shifted (base : Int) = mark (base + o) d := by
  rw [mark_shifted (by omega), shift_nat]

/-- A scan finds the same in another text when the places it looks at look the same there. -/
theorem Scans.shifted {text' : Array Char} {p q : Nat} {state state' : ScanState}
    {bs : List Boundary} {delta : Int} (h : lex.Scans text p state bs q state')
    (hdelta : 0 ≤ (p : Int) + delta)
    (hagree : ∀ i state, p ≤ i → i ≤ text.size → (i < q ∨ ∃ b ∈ bs, i ≤ b.offset) →
      shift i delta ≤ text'.size ∧
        lex.delimiterAt? text' (shift i delta) state = lex.delimiterAt? text i state) :
    lex.Scans text' (shift p delta) state (bs.map (·.shifted delta)) (shift q delta) state' := by
  induction h with
  | done => exact .done
  | @skip p q state state' bs hp hd htail ih =>
      have hq := htail.le
      obtain ⟨hsize, hsame⟩ := hagree p state (Nat.le_refl p) hp (.inl (by omega))
      have hnext := ih (by omega) fun i state hi hle hlook => hagree i state (by omega) hle hlook
      rw [shift_add hdelta] at hnext
      exact .skip hsize (hsame.trans hd) hnext
  | @take p q state state' bs d hp hd htail ih =>
      obtain ⟨hsize, hsame⟩ := hagree p state (Nat.le_refl p) hp
        (.inr ⟨mark p d, List.mem_cons_self, le_mark p d⟩)
      have hnext := ih (by omega) fun i state hi hle hlook => hagree i state (by omega) hle
        (hlook.imp id fun ⟨b, hb, hle⟩ => ⟨b, List.mem_cons_of_mem _ hb, hle⟩)
      rw [shift_add hdelta] at hnext
      rw [List.map_cons, mark_shifted hdelta]
      exact .take hsize (hsame.trans hd) hnext

/-- A scan finds the same in another text that looks the same at the places it looks at. -/
theorem Scans.congr {text' : Array Char} {p q : Nat} {state state' : ScanState}
    {bs : List Boundary} (h : lex.Scans text p state bs q state')
    (hagree : ∀ i state, p ≤ i → i ≤ text.size → (i < q ∨ ∃ b ∈ bs, i ≤ b.offset) →
      i ≤ text'.size ∧ lex.delimiterAt? text' i state = lex.delimiterAt? text i state) :
    lex.Scans text' p state bs q state' := by
  have : lex.Scans text' (shift p 0) state (bs.map (·.shifted 0)) (shift q 0) state' :=
    h.shifted (by omega) (by simpa using hagree)
  simpa using this

/-! ## Order of the boundaries -/

/-- Boundaries from a place on: in order, opening and closing by turns, with no empty region. -/
def Regular : (p : Nat) → ScanState → List Boundary → Prop
  | _, _, [] => True
  | p, state, b :: rest =>
    p ≤ b.offset ∧ (state = .outside ↔ b.state ≠ .outside) ∧
      Regular (if b.opens then b.offset + 1 else b.offset) b.state rest

/-- Boundaries from a place on are from any earlier one on. -/
theorem Regular.mono {p p' : Nat} {state : ScanState} {bs : List Boundary}
    (h : Regular p state bs) (hle : p' ≤ p) : Regular p' state bs := by
  cases bs with
  | nil => trivial
  | cons b rest => exact ⟨Nat.le_trans hle h.1, h.2⟩

/-- A scan leaves boundaries that open and close by turns. -/
theorem Scans.regular {p q : Nat} {state state' : ScanState} {bs : List Boundary}
    (h : lex.Scans text p state bs q state') : Regular p state bs := by
  induction h with
  | done => trivial
  | skip _ _ _ ih => exact ih.mono (Nat.le_succ _)
  | @take p q state state' bs d hp hd htail ih =>
      obtain ⟨-, hpos, hstate⟩ := delimiterAt?_bounds hd
      refine ⟨le_mark p d, by rwa [mark_state], ?_⟩
      rw [mark_state]
      refine ih.mono ?_
      have hoffset := mark_offset p d
      by_cases hopens : (mark p d).opens = true
      · have hout : state = .outside := by
          refine hstate.2 ?_
          intro h
          rw [Boundary.opens_eq, mark_state, h] at hopens
          exact absurd hopens (by decide)
        have := hpos hout
        rw [if_pos hopens] at hoffset ⊢
        omega
      · rw [if_neg hopens] at hoffset ⊢
        omega

/-- The boundary of a step lies ahead, and a region opens before the step ends. -/
theorem step_offset {p : Nat} {state : ScanState} {s : Step} (h : lex.step text p state = some s) :
    p ≤ s.offset ∧ (if s.state = .outside then s.offset else s.offset + 1) ≤ s.next := by
  cases state with
  | outside =>
      obtain ⟨m, hm, rfl⟩ := Option.map_eq_some_iff.1 h
      have hbounds := findStart_bounds hm
      exact ⟨hbounds.1, hbounds.2.1⟩
  | inside tag =>
      obtain ⟨m, hm, rfl⟩ := Option.map_eq_some_iff.1 h
      obtain ⟨d, -, hd⟩ := Option.bind_eq_some_iff.1 hm
      have hbounds := nextUnescaped_bounds hd
      exact ⟨Nat.le_trans hbounds.1 hbounds.2.1, Nat.le_refl _⟩

/-- What one scan finds is in order. -/
theorem regular_boundaries (lex : Lexicon) (text : Array Char) (p : Nat) (state : ScanState) :
    Regular p state (lex.boundaries text p state) := by
  unfold boundaries
  fun_induction scan lex text p state with
  | case1 => trivial
  | case2 p state s hs ih =>
      obtain ⟨hle, hnext⟩ := step_offset hs
      refine ⟨by simpa using hle, by simpa using step_state hs, ?_⟩
      rw [Boundary.into_state]
      refine ih.mono ?_
      rw [Boundary.into_opens, Boundary.into_offset]
      by_cases hout : s.state = .outside
      · simpa [hout] using hnext
      · simpa [hout] using hnext

/-- What one scan finds lies inside the text. -/
theorem boundaries_le_size {p : Nat} {state : ScanState} {b : Boundary}
    (hb : b ∈ lex.boundaries text p state) : b.offset ≤ text.size := by
  unfold boundaries at hb
  fun_induction scan lex text p state with
  | case1 => exact absurd hb List.not_mem_nil
  | case2 p state s hs ih =>
      rcases List.mem_cons.1 hb with rfl | hb
      · have hsize := (step_bounds hs).2.1
        have hnext := (step_offset hs).2
        rw [Boundary.into_offset]
        split at hnext <;> omega
      · exact ih hb

/-- Boundaries lie at or behind the place they start from. -/
theorem Regular.le_offset {p : Nat} {state : ScanState} {bs : List Boundary}
    (h : Regular p state bs) {b : Boundary} (hb : b ∈ bs) : p ≤ b.offset := by
  induction bs generalizing p state with
  | nil => exact absurd hb List.not_mem_nil
  | cons b' rest ih =>
      obtain ⟨hle, -, hrest⟩ := h
      rcases List.mem_cons.1 hb with rfl | hb
      · exact hle
      · have := ih hrest hb
        split at this <;> omega

/-- Boundaries are in order. -/
theorem Regular.pairwise {p : Nat} {state : ScanState} {bs : List Boundary}
    (h : Regular p state bs) : bs.Pairwise fun a b => a.offset ≤ b.offset := by
  induction bs generalizing p state with
  | nil => exact .nil
  | cons b rest ih =>
      obtain ⟨-, -, hrest⟩ := h
      refine List.pairwise_cons.2 ⟨?_, ih hrest⟩
      intro b' hb'
      have := hrest.le_offset hb'
      split at this <;> omega

/-- What follows some boundaries is in order too. -/
theorem Regular.of_append {p : Nat} {state : ScanState} {bs bs' : List Boundary}
    (h : Regular p state (bs ++ bs')) : ∃ q at', p ≤ q ∧ Regular q at' bs' := by
  induction bs generalizing p state with
  | nil => exact ⟨p, state, Nat.le_refl p, h⟩
  | cons b rest ih =>
      obtain ⟨hle, -, hrest⟩ := h
      obtain ⟨q, at', hq, hregular⟩ := ih hrest
      refine ⟨q, at', ?_, hregular⟩
      split at hq <;> omega

/-- Everything before a close lies strictly before it. -/
theorem Regular.lt_close {p : Nat} {state : ScanState} {bs : List Boundary} {b : Boundary}
    (h : Regular p state (bs ++ [b])) (hb : b.opens = false) :
    ∀ b' ∈ bs, b'.offset < b.offset := by
  induction bs generalizing p state with
  | nil => simp
  | cons b₀ rest ih =>
      obtain ⟨-, -, hrest⟩ := h
      intro b' hb'
      rcases List.mem_cons.1 hb' with rfl | hb'
      · cases rest with
        | nil =>
            -- just before the close is the opening of its region, which holds something
            obtain ⟨hle, hturn, -⟩ := hrest
            have hin : b'.state ≠ .outside := fun hout => by
              have := hturn.1 hout
              rw [Boundary.opens_eq] at hb
              simp at hb
              exact this hb
            rw [if_pos (by rw [Boundary.opens_eq]; simpa using hin)] at hle
            exact hle
        | cons b₁ rest =>
            have h1 := ih hrest b₁ List.mem_cons_self
            have h2 := hrest.le_offset (b := b₁) (by simp)
            split at h2 <;> omega
      · exact ih hrest b' hb'

end Lexicon

/-! ## A list over two lines -/

/-- A list over two lines with an escaped parenthesis in it, and a number behind it. -/
def Document.escapedList : Document := .ofString "(\\)\nb) 42\n"

/-- The escaped parenthesis does not close the list. -/
theorem Grammar.boundaries_escapedList :
    (Lexicon.ofGrammar .lisp).boundaries Document.escapedList.chars 0 .outside =
      [.opening 0 1, .closing 6] := by
  have hscan : (Lexicon.ofGrammar .lisp).Scans Document.escapedList.chars 0 .outside
      [.opening 0 1, .closing 6] 11 .outside := by
    have hout := Grammar.delimiterAt?_lisp_outside Document.escapedList.chars
    have hin := Grammar.delimiterAt?_lisp_list Document.escapedList.chars
    refine .take (by decide) (hout 0) ?_
    refine .skip (by decide) (hin 1) (.skip (by decide) (hin 2) (.skip (by decide) (hin 3) ?_))
    refine .skip (by decide) (hin 4) (.take (by decide) (hin 5) ?_)
    refine .skip (by decide) (hout 6) (.skip (by decide) (hout 7) (.skip (by decide) (hout 8) ?_))
    exact .skip (by decide) (hout 9) (.skip (by decide) (hout 10) .done)
  exact (hscan.eq_boundaries Grammar.lineLocal_lisp.isLawful).symm

end Highlighter
