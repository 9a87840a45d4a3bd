import Highlighter.Proofs.Repair

/-! # Absorption — edits that leave the boundaries of their lines as they were

    `update?` scans the edited lines anew and accepts when it finds the boundaries that the
    old ones have become.  Then the old and the new scan come to the next line start in one
    state, and from there on the texts look alike: the rest of the table moves along.

    The window of that scan ends where the next line begins, unless the edit has left its
    line empty: then it ends at the line itself.  Two things go unseen there, an empty close
    at the edit and an opening that a deletion has begun with (`Unseen`).  Nothing else can
    go wrong. -/

namespace Highlighter

variable {lex : Lexicon} {text text' : Array Char}

namespace Analysis

variable {a a' : Analysis} {doc : Document} {e : Edit}

/-! ## What is expected -/

/-- A boundary where an edit takes it. -/
def carried (e : Edit) (b : Boundary) : Boundary := { b with offset := (moved? e b).getD b.offset }

@[simp] theorem carried_state (b : Boundary) : (carried e b).state = b.state := rfl

@[simp] theorem carried_opens (b : Boundary) : (carried e b).opens = b.opens := rfl

/-- The boundary lies past the end of the window, or opens right there. -/
def Beyond (e : Edit) (stop : Option Nat) (b : Boundary) : Prop :=
  ∃ w, stop = some w ∧ ∃ o, moved? e b = some o ∧ (w < o ∨ (o = w ∧ b.opens = true))

/-- What is expected are the first of the boundaries, carried along, up to one that is beyond. -/
theorem expected?_eq_some {stop : Option Nat} {rest expected : List Boundary}
    (h : expected? e stop rest = some expected) :
    ∃ taken left, rest = taken ++ left ∧ expected = taken.map (carried e) ∧
      (∀ b ∈ taken, (moved? e b).isSome = true) ∧
      (∀ x left', left = x :: left' → Beyond e stop x) := by
  induction rest generalizing expected with
  | nil =>
      obtain rfl := Option.some.inj h
      exact ⟨[], [], rfl, rfl, by simp, by simp⟩
  | cons b rest ih =>
      rw [expected?] at h
      cases hmoved : moved? e b with
      | none =>
          rw [hmoved] at h
          exact absurd h (Option.some_ne_none expected).symm
      | some o =>
          rw [hmoved] at h
          dsimp only at h
          split at h
          · rename_i hany
            obtain rfl := Option.some.inj h
            refine ⟨[], b :: rest, rfl, rfl, by simp, ?_⟩
            intro x left' hx
            obtain ⟨rfl, rfl⟩ := List.cons.inj hx
            obtain ⟨w, hw, hout⟩ := (Option.any_eq_true _ _).1 hany
            refine ⟨w, hw, o, hmoved, ?_⟩
            simpa using hout
          · obtain ⟨expected', hexpected', rfl⟩ := Option.map_eq_some_iff.1 h
            obtain ⟨taken, left, rfl, rfl, hall, hleft⟩ := ih hexpected'
            refine ⟨b :: taken, left, rfl, ?_, ?_, hleft⟩
            · rw [List.map_cons, carried, hmoved, Option.getD_some]
            · intro b' hb'
              rcases List.mem_cons.1 hb' with rfl | hb'
              · rw [hmoved]
                rfl
              · exact hall b' hb'

/-- A boundary behind the edit moves with the text. -/
theorem moved?_of_lt {b : Boundary} (h : e.oldStop < b.offset) :
    moved? e b = some (shift b.offset e.delta) := by
  have hold : e.oldStop = e.pos + (-e.delta).toNat := rfl
  rw [moved?, if_neg (by omega), if_pos (.inl h)]

/-- Where an edit takes a boundary at or before its end. -/
theorem moved?_of_le {b : Boundary} {o : Nat} (h : moved? e b = some o)
    (hle : b.offset ≤ e.oldStop) :
    (o = b.offset ∧ b.offset < e.pos) ∨ (o = b.offset ∧ b.offset = e.pos ∧ e.delta < 0) ∨
      (o = e.newStop ∧ b.offset = e.oldStop ∧ (0 < e.delta ∨ b.opens = true)) := by
  rw [moved?] at h
  split at h
  · rename_i hkeeps
    have := Option.some.inj h
    omega
  · split at h
    · rename_i hmoves
      have hat : b.offset = e.oldStop := by omega
      refine .inr (.inr ⟨?_, hat, ?_⟩)
      · rw [← Option.some.inj h, hat, newStop_eq_shift]
      · rcases hmoves with hlt | ⟨-, hmoves⟩
        · omega
        · exact hmoves
    · exact absurd h (Option.some_ne_none o).symm

/-! ## What is confirmed -/

/-- When the scan confirms what is expected, that is all that there is, and none of it lies at the
    end of the edit. -/
theorem confirms_sweep (hlocal : lex.LineLocal) {window : Array Char} {base : Nat}
    {bound : Option Nat} {budget pos : Nat} {state : ScanState} {expected : List Boundary}
    (h : confirms lex window base bound e budget pos state expected = true) :
    ∃ bs pos' state', expected = bs.map (·.shifted base) ∧
      Sweep lex window bound pos state bs pos' state' ∧ ∀ b ∈ expected, b.offset ≠ e.newStop := by
  induction budget generalizing pos state expected with
  | zero => exact absurd h Bool.false_ne_true
  | succ budget ih =>
      rw [confirms] at h
      cases hs : lex.step window pos state with
      | none =>
          rw [hs] at h
          obtain rfl : expected = [] := List.isEmpty_iff.1 h
          exact ⟨[], pos, state, rfl, sweep_of_step_none hlocal.isLawful hs, by simp⟩
      | some s =>
          rw [hs] at h
          dsimp only at h
          split at h
          · rename_i hbound
            obtain rfl : expected = [] := List.isEmpty_iff.1 h
            exact ⟨[], pos, state, rfl, sweep_of_bound hlocal.isLawful hs hbound, by simp⟩
          · rename_i hbound
            split at h
            · exact absurd h Bool.false_ne_true
            · rename_i htouch
              obtain ⟨o, d, ho, hd, rfl, hscan⟩ := Lexicon.step_eq_some hlocal.isLawful hs
              cases expected with
              | nil => exact absurd h Bool.false_ne_true
              | cons b rest =>
                  dsimp only at h
                  rw [Bool.and_eq_true, beq_iff_eq, into_stepOver, Lexicon.stepOver_next,
                    Lexicon.stepOver_state] at h
                  rw [Lexicon.stepOver_textStart, Lexicon.stepOver_next] at htouch
                  obtain ⟨bs, pos', state', rfl, hsweep, hfree⟩ := ih h.2
                  refine ⟨Lexicon.mark o d :: bs, pos', state', by rw [h.1]; rfl,
                    hsweep.take hlocal hscan ho hd (lt_of_not_bound hbound), fun b' hb' => ?_⟩
                  rcases List.mem_cons.1 hb' with rfl | hb'
                  · have h1 := Lexicon.le_mark o d
                    have h2 := Lexicon.mark_le o d
                    have hoffset : b'.offset = base + (Lexicon.mark o d).offset := by
                      rw [h.1, Boundary.shifted_offset, shift_nat]
                    have hnew : e.pos ≤ e.newStop := Nat.le_add_right _ _
                    omega
                  · exact hfree b' hb'

/-! ## What is accepted -/

/-- Where the window of `update?` ends. -/
def windowStop (doc : Document) (e : Edit) : Nat := doc.snapForward (doc.lineEnd e.newStop)

/-- The window ends behind the newline that ends the edited lines, or right before that newline
    when the edit has left its line empty, or with the text. -/
theorem windowStop_spec (doc : Document) (h : e.newStop ≤ doc.length) :
    doc.IsLineBreak (windowStop doc e) ∧ e.newStop ≤ windowStop doc e ∧
      (windowStop doc e < doc.length →
        (e.newStop < windowStop doc e ∧ doc.chars[windowStop doc e - 1]? = some '\n') ∨
          (windowStop doc e = e.newStop ∧ doc.chars[e.newStop]? = some '\n')) := by
  have hend := doc.le_lineEnd h
  have hle := doc.lineEnd_le e.newStop
  have hat := (doc.lineEnd_spec e.newStop).2.2.1
  have hlen : doc.length = doc.chars.size := doc.length_eq
  have hsnap : e.newStop ≤ windowStop doc e := Nat.le_trans hend (doc.le_snapForward hle)
  refine ⟨doc.isLineBreak_snapForward _, hsnap, ?_⟩
  intro hlt
  have hnl : doc.lineEnd e.newStop < doc.length → doc.chars[doc.lineEnd e.newStop]? = some '\n' :=
    fun hlt => hat.resolve_left fun hnone => by
      have := Array.getElem?_eq_none_iff.1 hnone
      omega
  rw [windowStop, Document.snapForward_eq] at hlt hsnap ⊢
  by_cases hline : IsLineStart doc.chars (doc.lineEnd e.newStop) ∨ doc.length ≤ doc.lineEnd e.newStop
  · rw [if_pos hline] at hlt hsnap ⊢
    have hstart := hline.resolve_right (by omega)
    have heq : doc.lineEnd e.newStop = e.newStop := by
      rcases Nat.eq_or_lt_of_le hend with heq | hlt'
      · exact heq.symm
      · have := doc.lineEnd_lt hstart hlt' hle
        omega
    refine .inr ⟨by omega, ?_⟩
    have := hnl (by omega)
    rwa [heq] at this
  · rw [if_neg hline, doc.lineEnd_lineEnd] at hlt hsnap ⊢
    have hmin : min (doc.lineEnd e.newStop + 1) doc.length = doc.lineEnd e.newStop + 1 := by omega
    rw [hmin, Nat.add_sub_cancel]
    exact .inl ⟨by omega, hnl (by omega)⟩

/-- An edit that is absorbed: what is kept, what is expected and found again, and what is left to
    move along. -/
structure Absorbed (lex : Lexicon) (doc : Document) (a : Analysis) (e : Edit) (a' : Analysis)
    (kept taken left : List Boundary) (state : ScanState) : Prop where
  entries : a.table.entries = kept ++ (taken ++ left)
  kept_lt : ∀ b ∈ kept, b.offset < e.pos
  scan    : lex.Scans doc.chars 0 .outside (kept ++ taken.map (carried e))
    (if windowStop doc e < doc.length then windowStop doc e else doc.length + 1) state
  inside  : windowStop doc e < doc.length → ∀ b ∈ taken, (carried e b).offset < windowStop doc e
  moved   : ∀ b ∈ taken, (moved? e b).isSome = true
  free    : ∀ b ∈ taken, (carried e b).offset ≠ e.newStop
  beyond  : ∀ x left', left = x :: left' →
    Beyond e (if windowStop doc e < doc.length then some (windowStop doc e) else none) x
  far     : ∀ f, a.table.frontier = some f →
    e.oldStop < f.offset ∧ windowStop doc e < shift f.offset e.delta
  result  : a' =
    { table :=
        { entries := kept ++ taken.map (carried e) ++ left.map (·.shifted e.delta)
          frontier := a.table.frontier.map fun f => { f with offset := shift f.offset e.delta } }
      saved := a.saved.bind (·.adjust e.oldStop e.delta) }

theorem absorbed_of_update? (hlocal : lex.LineLocal) (hedit : Edited text doc.chars e)
    (hholds : a.table.Holds lex text) {budget : Nat} (h : a.update? lex doc e budget = some a') :
    ∃ kept taken left state, Absorbed lex doc a e a' kept taken left state := by
  obtain ⟨hscan, hrestart⟩ := hholds.kept hlocal hedit.cutAt
  obtain ⟨rest, hentries, hbefore, -⟩ :=
    keptBefore_spec a.table.entries (doc.lineStart e.pos)
  have hcut := doc.lineStart_le e.pos
  have hnew : e.pos ≤ e.newStop := Nat.le_add_right _ _
  obtain ⟨hbreak, hstop, -⟩ := windowStop_spec doc (doc.length_eq ▸ hedit.newStop_le)
  have hlen : doc.length = doc.chars.size := doc.length_eq
  have hwindow : doc.snapForward (doc.lineEnd e.newStop) = windowStop doc e := rfl
  have hdrop : a.table.entries.drop (keptBefore a.table.entries (doc.lineStart e.pos)).length =
      rest := by
    generalize keptBefore a.table.entries (doc.lineStart e.pos) = kept at hentries ⊢
    rw [hentries, List.drop_left]
  rw [update?] at h
  simp only [hwindow, hdrop] at h
  generalize keptBefore a.table.entries (doc.lineStart e.pos) = kept at *
  split at h
  · exact absurd h (Option.some_ne_none a').symm
  · rename_i hshort
    cases hexpected : expected? e
        (if windowStop doc e < doc.length then some (windowStop doc e) else none) rest with
    | none =>
        rw [hexpected] at h
        exact absurd h (Option.some_ne_none a').symm
    | some expected =>
        rw [hexpected] at h
        obtain ⟨hconfirms, h⟩ := Option.ite_none_right_eq_some.1 h
        obtain ⟨taken, left, rfl, rfl, hmoved, hbeyond⟩ := expected?_eq_some hexpected
        obtain ⟨bs, pos', state', hbs, hsweep, hfree⟩ := confirms_sweep hlocal hconfirms
        have hbound : (if windowStop doc e < doc.length then some (windowStop doc e) else none).map
            (· - doc.lineStart (lastOffset kept)) =
              doc.windowBound (lastOffset kept) (windowStop doc e) := by
          rw [Document.windowBound]
          split <;> rfl
        rw [hbound] at hsweep
        obtain ⟨hswept, hinside⟩ := Sweep.scans hlocal (by omega) hbreak hsweep
        rw [← hbs] at hswept hinside
        refine ⟨kept, taken, left, state', hentries, ?_, hscan.trans hswept,
          fun hlt b hb => hinside hlt _ (List.mem_map_of_mem hb), hmoved,
          fun b hb => hfree _ (List.mem_map_of_mem hb), hbeyond, ?_, ?_⟩
        · intro b hb
          have := hbefore b hb
          omega
        · intro f hf
          rw [hf, Option.any_some] at hshort
          simp only [Bool.or_eq_true, decide_eq_true_eq, not_or, Nat.not_le] at hshort
          exact hshort
        · rw [← Option.some.inj h, List.length_map, List.drop_left]

/-! ## Where the scans meet -/

/-- A line start behind the edit, in the old text and in the new one: where the window ends, or
    one line on when the edit has left its line empty. -/
structure Landing (text : Array Char) (doc : Document) (e : Edit) (w : Nat) : Prop where
  behind : e.oldStop < w
  size   : w ≤ text.size
  line   : IsLineStart text w
  line'  : IsLineStart doc.chars (shift w e.delta)
  window : (e.newStop < windowStop doc e ∧ shift w e.delta = windowStop doc e) ∨
    (windowStop doc e = e.newStop ∧ shift w e.delta = e.newStop + 1 ∧ w = e.oldStop + 1 ∧
      doc.chars[e.newStop]? = some '\n' ∧ text[e.oldStop]? = some '\n')

theorem exists_landing (hedit : Edited text doc.chars e) (hlt : windowStop doc e < doc.length) :
    ∃ w, Landing text doc e w := by
  have hlen : doc.length = doc.chars.size := doc.length_eq
  have hsize := hedit.size_eq
  have hold : e.oldStop = e.pos + (-e.delta).toNat := rfl
  have hnew : e.newStop = e.pos + e.delta.toNat := rfl
  obtain ⟨⟨hle, hbreak⟩, -, hcases⟩ := windowStop_spec doc (doc.length_eq ▸ hedit.newStop_le)
  have hshift : ∀ n, shift (e.oldStop + n) e.delta = e.newStop + n := by
    intro n
    rw [newStop_eq_shift, shift_add (by omega)]
  have hget : ∀ n, text[e.oldStop + n]? = doc.chars[e.newStop + n]? := fun n => by
    rw [← hshift n]
    exact (hedit.behind (e.oldStop + n) (Nat.le_add_right _ _)).symm
  rcases hcases hlt with ⟨hgt, hnl⟩ | ⟨heq, hnl⟩
  · obtain ⟨n, hn⟩ : ∃ n, windowStop doc e = e.newStop + n + 1 := ⟨windowStop doc e - e.newStop - 1,
      by omega⟩
    rw [hn, Nat.add_sub_cancel, ← hget] at hnl
    have hat : shift (e.oldStop + n + 1) e.delta = windowStop doc e := by
      rw [Nat.add_assoc, hshift, hn]
      rfl
    refine ⟨e.oldStop + n + 1, by omega, by omega, isLineStart_succ hnl, ?_, .inl ⟨hgt, hat⟩⟩
    rw [hat]
    exact hbreak.resolve_right (by omega)
  · have hnl' : text[e.oldStop]? = some '\n' := (hget 0).trans hnl
    have hat : shift (e.oldStop + 1) e.delta = e.newStop + 1 := hshift 1
    refine ⟨e.oldStop + 1, Nat.lt_succ_self _, by omega, isLineStart_succ hnl', ?_,
      .inr ⟨heq, hat, rfl, hnl, hnl'⟩⟩
    rw [hat]
    exact isLineStart_succ hnl

/-- No region opens at the end of a line. -/
theorem not_opens_at_newline (hlocal : lex.LineLocal) {q : Nat} {d : Nat × ScanState}
    (hq : q ≤ text.size) (hnl : text[q]? = some '\n') :
    lex.delimiterAt? text q .outside ≠ some d := by
  intro hd
  have hpos := (Lexicon.delimiterAt?_bounds hd).2.1 rfl
  have hend := Lexicon.delimiterAt?_within hlocal hq hd
  rw [lineStop_of_atLineEnd (.inr hnl)] at hend
  omega

/-- So all that can begin there is an empty close. -/
theorem mark_at_newline (hlocal : lex.LineLocal) {q : Nat} {at' : ScanState} {d : Nat × ScanState}
    (hq : q ≤ text.size) (hnl : text[q]? = some '\n') (hd : lex.delimiterAt? text q at' = some d) :
    Lexicon.mark q d = .closing q := by
  have hend := Lexicon.delimiterAt?_within hlocal hq hd
  rw [lineStop_of_atLineEnd (.inr hnl)] at hend
  cases at' with
  | outside => exact absurd hd (not_opens_at_newline hlocal hq hnl)
  | inside tag =>
      have hturn := (Lexicon.delimiterAt?_bounds hd).2.2
      obtain ⟨n, st⟩ := d
      obtain rfl : st = .outside := Classical.byContradiction fun hin =>
        ScanState.noConfusion (hturn.2 hin)
      obtain rfl : n = 0 := by
        have : q + n ≤ q := hend
        omega
      rfl

/-- A table that holds has no opening at the end of a line. -/
theorem not_newline_of_opens {t : BoundaryTable} (hholds : t.Holds lex text)
    (hlocal : lex.LineLocal) {b : Boundary} (hb : b ∈ t.entries) (hopens : b.opens = true) :
    text[b.offset]? ≠ some '\n' := by
  intro hnl
  obtain ⟨front, behind, hentries⟩ := List.append_of_mem hb
  obtain ⟨o, at', d, -, -, -, ho, hd, rfl, -⟩ := hholds.split hlocal.isLawful hentries
  have hat := Lexicon.mark_offset o d
  rw [if_pos hopens] at hat
  rw [hat] at hnl
  have hempty := mark_at_newline hlocal ho hnl hd
  rw [hempty] at hopens
  exact absurd hopens Bool.false_ne_true

variable {kept taken left : List Boundary} {state : ScanState}

theorem moved?_carried {b : Boundary} (h : (moved? e b).isSome = true) :
    moved? e b = some (carried e b).offset := by
  obtain ⟨o, ho⟩ := Option.isSome_iff_exists.1 h
  rw [ho, carried, ho]
  rfl

namespace Absorbed

/-- What the edit leaves alone behind the landing is what is left to move along, but for an
    opening that the window ends at. -/
structure Meets (lex : Lexicon) (text : Array Char) (doc : Document) (a : Analysis) (e : Edit)
    (front left : List Boundary) (w : Nat) (more behind : List Boundary) (at' : ScanState)
    (q : Nat) (last : ScanState) : Prop where
  landing : Landing text doc e w
  left    : left = more ++ behind
  before  : lex.Scans text 0 .outside (front ++ more) w at'
  after   : lex.Scans text w at' behind q last
  lt      : ∀ b ∈ front ++ more, b.offset < w
  le      : ∀ b ∈ behind, w ≤ b.offset
  some    : ∀ f, a.table.frontier = some f → q = f.offset ∧ last = f.state ∧ f.offset ≤ text.size
  none    : a.table.frontier = none → q = text.size + 1
  opening : ∀ x more', more = x :: more' →
    e.delta < 0 ∧ x.offset = e.pos ∧ x.opens = true ∧ windowStop doc e = e.pos

/-- As long as something is left to move along, the window ends within the text. -/
theorem windowStop_lt_of_mem (h : Absorbed lex doc a e a' kept taken left state) {x : Boundary}
    (hx : x ∈ left) : windowStop doc e < doc.length := by
  obtain ⟨y, left', hy⟩ := List.exists_cons_of_ne_nil (List.ne_nil_of_mem hx)
  obtain ⟨w, hw, -⟩ := h.beyond y left' hy
  by_cases hlt : windowStop doc e < doc.length
  · exact hlt
  · rw [if_neg hlt] at hw
    exact absurd hw.symm (Option.some_ne_none w)

/-- The table has got past the landing. -/
theorem landing_le_frontier (h : Absorbed lex doc a e a' kept taken left state) {w : Nat}
    (hland : Landing text doc e w) {f : Frontier} (hf : a.table.frontier = some f) :
    w ≤ f.offset := by
  obtain ⟨hfar, hfar'⟩ := h.far f hf
  have hstops := e.stops
  have hold := hland.behind
  have hshift := shift_of_le (Nat.le_of_lt hfar)
  have hshift' := shift_of_le (Nat.le_of_lt hold)
  rcases hland.window with ⟨-, hat⟩ | ⟨hat, hat', -⟩ <;> omega

/-- What is kept and what is expected lie before the landing. -/
theorem lt_landing (h : Absorbed lex doc a e a' kept taken left state)
    (hlt : windowStop doc e < doc.length) {w : Nat} (hland : Landing text doc e w) :
    ∀ b ∈ kept ++ taken, b.offset < w := by
  have hstops := e.stops
  have hold := hland.behind
  intro b hb
  rcases List.mem_append.1 hb with hb | hb
  · have := h.kept_lt b hb
    omega
  · -- expected are only boundaries that come to lie in the window
    refine Nat.lt_of_not_le ?_
    intro hge
    have hin := h.inside hlt b hb
    have hmoved := moved?_carried (h.moved b hb)
    rw [moved?_of_lt (by omega)] at hmoved
    have hat := Option.some.inj hmoved
    have hmono : shift w e.delta ≤ shift b.offset e.delta := shift_mono hge
    rcases hland.window with ⟨-, hw⟩ | ⟨hw, hw', -⟩ <;> omega

/-- The first of what is left can lie before the landing only as an opening at the edit, where the
    window ends. -/
theorem opening_of_lt_landing (h : Absorbed lex doc a e a' kept taken left state)
    (hlocal : lex.LineLocal) (hedit : Edited text doc.chars e) (hholds : a.table.Holds lex text)
    (hlt : windowStop doc e < doc.length) {w : Nat} (hland : Landing text doc e w) {x : Boundary}
    {left' : List Boundary} (hleft : left = x :: left') (hx : x.offset < w) :
    e.delta < 0 ∧ x.offset = e.pos ∧ x.opens = true ∧ windowStop doc e = e.pos := by
  have hold : e.oldStop = e.pos + (-e.delta).toNat := rfl
  have hnew : e.newStop = e.pos + e.delta.toNat := rfl
  obtain ⟨-, hstop, -⟩ := windowStop_spec doc (doc.length_eq ▸ hedit.newStop_le)
  have hshift := shift_of_le (Nat.le_of_lt hland.behind)
  obtain ⟨_, hwindow, o, hmoved, hbeyond⟩ := h.beyond x left' hleft
  rw [if_pos hlt] at hwindow
  obtain rfl := Option.some.inj hwindow
  rcases Nat.lt_or_ge e.oldStop x.offset with hfar | hnear
  · -- it moves along with the text, to where the window has not ended yet
    rw [moved?_of_lt hfar] at hmoved
    have hat := Option.some.inj hmoved
    have := shift_of_le (Nat.le_of_lt hfar)
    rcases hland.window with ⟨-, hw⟩ | ⟨hw, hw', -⟩ <;> omega
  · rcases moved?_of_le hmoved hnear with ⟨rfl, hlt'⟩ | ⟨rfl, hat, hneg⟩ | ⟨rfl, hat, -⟩
    · omega
    · exact ⟨hneg, hat, (hbeyond.resolve_left (by omega)).2, by omega⟩
    · obtain ⟨-, hopens⟩ := hbeyond.resolve_left (by omega)
      rcases hland.window with ⟨hw, -⟩ | ⟨-, -, -, -, hnl⟩
      · omega
      · -- an opening would have to begin with the newline
        have hmem : x ∈ a.table.entries := by
          rw [h.entries, hleft]
          simp
        rw [← hat] at hnl
        exact absurd hnl (not_newline_of_opens hholds hlocal hmem hopens)

/-- The scan of the old text comes by the landing, and what is left falls into two there. -/
theorem meets (h : Absorbed lex doc a e a' kept taken left state) (hlocal : lex.LineLocal)
    (hedit : Edited text doc.chars e) (hholds : a.table.Holds lex text)
    (hlt : windowStop doc e < doc.length) :
    ∃ w more behind at' q last,
      Meets lex text doc a e (kept ++ taken) left w more behind at' q last := by
  obtain ⟨w, hland⟩ := exists_landing hedit hlt
  obtain ⟨q, last, hscan, -, hsome, hnone⟩ := hholds.scans hlocal.isLawful
  have hwq : w ≤ q := by
    cases hf : a.table.frontier with
    | none =>
        rw [hnone hf]
        exact Nat.le_succ_of_le hland.size
    | some f =>
        rw [(hsome f hf).1]
        exact h.landing_le_frontier hland hf
  obtain ⟨bs, behind, at', hsplit, hbefore, hafter, hlt', hle⟩ :=
    hscan.cut hlocal hland.line hland.size (Nat.zero_le w) hwq
  have hfront := h.lt_landing hlt hland
  obtain ⟨more, rfl, hleft⟩ : ∃ more, bs = kept ++ taken ++ more ∧ left = more ++ behind := by
    have hall := hsplit
    rw [h.entries, ← List.append_assoc] at hall
    rcases List.append_eq_append_iff.1 hall with ⟨more, hbs, hleft⟩ | ⟨more, hkept, hbehind⟩
    · exact ⟨more, hbs, hleft⟩
    · cases more with
      | nil =>
          rw [List.append_nil] at hkept
          exact ⟨[], by rw [List.append_nil, hkept], by rw [List.nil_append]; exact hbehind.symm⟩
      | cons x more =>
          have h1 := hfront x (by rw [hkept]; simp)
          have h2 := hle x (by rw [hbehind]; simp)
          omega
  refine ⟨w, more, behind, at', q, last, hland, hleft, hbefore, hafter, hlt', hle, hsome, hnone, ?_⟩
  rintro x more' rfl
  exact h.opening_of_lt_landing hlocal hedit hholds hlt hland hleft (hlt' x (by simp))

end Absorbed

/-! ## What goes unseen -/

/-- The window ends before it: an empty close at the end of the edit, or an opening of the old text
    that a deletion begins with. -/
def Unseen (lex : Lexicon) (a : Analysis) (doc : Document) (e : Edit) : Prop :=
  Boundary.closing e.newStop ∈ lex.boundaries doc.chars 0 .outside ∨
    (e.delta < 0 ∧ ∃ b ∈ a.table.entries, b.offset = e.pos ∧ b.opens = true)

theorem map_carried_state (bs : List Boundary) :
    (bs.map (carried e)).map Boundary.state = bs.map Boundary.state := by
  rw [List.map_map]
  rfl

namespace Absorbed

/-- What the window cuts off is nothing, unless an opening goes unseen. -/
theorem more_eq_nil (h : Absorbed lex doc a e a' kept taken left state) {w q : Nat}
    {more behind : List Boundary} {at' last : ScanState}
    (hmeets : Meets lex text doc a e (kept ++ taken) left w more behind at' q last)
    (hnone : ¬(e.delta < 0 ∧ ∃ b ∈ a.table.entries, b.offset = e.pos ∧ b.opens = true)) : more = [] := by
  cases more with
  | nil => rfl
  | cons x more' =>
      obtain ⟨hneg, hat, hopens, -⟩ := hmeets.opening x more' rfl
      refine absurd ⟨hneg, x, ?_, hat, hopens⟩ hnone
      rw [h.entries, hmeets.left]
      simp

/-- When nothing goes unseen the two scans come to the landing in one state, with the boundaries
    that were expected. -/
theorem lands (h : Absorbed lex doc a e a' kept taken left state) (hlocal : lex.LineLocal)
    (hedit : Edited text doc.chars e) (hlt : windowStop doc e < doc.length) {w q : Nat}
    {more behind : List Boundary} {at' last : ScanState}
    (hmeets : Meets lex text doc a e (kept ++ taken) left w more behind at' q last)
    (hseen : ¬Unseen lex a doc e) :
    more = [] ∧ lex.Scans doc.chars 0 .outside (kept ++ taken.map (carried e))
      (shift w e.delta) at' := by
  obtain rfl := h.more_eq_nil hmeets fun hopens => hseen (.inr hopens)
  refine ⟨rfl, ?_⟩
  have hscan := h.scan
  rw [if_pos hlt] at hscan
  have hbefore := hmeets.before
  rw [List.append_nil] at hbefore
  -- the boundaries are as many, and of the same kinds, so the states behind them agree
  have hstate : state = at' := by
    refine hscan.state_eq_of_map hbefore ?_
    rw [List.map_append, List.map_append, map_carried_state]
  rw [hstate] at hscan
  rcases hmeets.landing.window with ⟨-, hat⟩ | ⟨heq, hat, -, hnl, -⟩
  · rwa [hat]
  · -- the line is empty: one step on, over the newline, where only a close could be
    rw [heq] at hscan
    have hsize : e.newStop ≤ doc.chars.size := hedit.newStop_le
    have hnone : lex.delimiterAt? doc.chars e.newStop at' = none := by
      cases hd : lex.delimiterAt? doc.chars e.newStop at' with
      | none => rfl
      | some d =>
          refine absurd (.inl ?_) hseen
          rw [hscan.boundaries hlocal.isLawful, Lexicon.boundaries_of_some hlocal.isLawful hsize hd,
            mark_at_newline hlocal hsize hnl hd]
          simp
    have hskip := hscan.trans (.skip hsize hnone .done)
    rwa [List.append_nil, ← hat] at hskip

/-- Behind a landing the old scan goes on, moved along, and the table is right as far as that. -/
theorem holds_of_landing (h : Absorbed lex doc a e a' kept taken left state)
    (hlocal : lex.LineLocal) (hedit : Edited text doc.chars e) (hholds : a.table.Holds lex text)
    (hseen : ¬Unseen lex a doc e) (hlt : windowStop doc e < doc.length) :
    a'.table.Holds lex doc.chars := by
  obtain ⟨w, more, behind, at', q, last, hmeets⟩ := h.meets hlocal hedit hholds hlt
  obtain ⟨rfl, hlands⟩ := h.lands hlocal hedit hlt hmeets hseen
  obtain ⟨hland, hleft, -, hafter, -, hle, hsome, hnone, -⟩ := hmeets
  have hlooks := hedit.looksAhead hland.behind hland.size
  have hhides : lex.hides doc.chars (shift w e.delta) = lex.hides text w := by
    rw [Lexicon.hides_of_isLineStart hlocal hland.line' (hlooks.shift_le hland.size),
      Lexicon.hides_of_isLineStart hlocal hland.line hland.size]
  have hmoved := hafter.shifted hlooks.nonneg fun i state hi hi' _ => by
    have halike := hlooks.alike hhides hi hi'
    exact ⟨halike.size, Lexicon.delimiterAt?_congr hlocal halike state⟩
  have hall := hlands.trans hmoved
  rw [h.result, hleft, List.nil_append, BoundaryTable.Holds]
  cases hf : a.table.frontier with
  | none =>
      rw [hnone hf, hlooks.shift_end] at hall
      exact hall.eq_boundaries hlocal.isLawful
  | some f =>
      obtain ⟨rfl, rfl, hfsize⟩ := hsome f hf
      exact ⟨hlooks.shift_le hfsize, hall⟩

/-- A window that takes in the rest of the text has found all that there is. -/
theorem holds_of_last (h : Absorbed lex doc a e a' kept taken left state)
    (hlocal : lex.LineLocal) (hedit : Edited text doc.chars e) (hholds : a.table.Holds lex text)
    (hlast : ¬windowStop doc e < doc.length) : a'.table.Holds lex doc.chars := by
  have hleft : left = [] := by
    cases left with
    | nil => rfl
    | cons x left' => exact absurd (h.windowStop_lt_of_mem List.mem_cons_self) hlast
  have hnone : a.table.frontier = none := by
    cases hf : a.table.frontier with
    | none => rfl
    | some f =>
        -- an edit is absorbed only well before the frontier
        have hfar := (h.far f hf).2
        have hsize : shift f.offset e.delta ≤ doc.length :=
          doc.length_eq ▸ hedit.shift_le (hholds.frontier_le hf)
        omega
  have hscan := h.scan
  rw [if_neg hlast] at hscan
  rw [h.result, hleft, hnone]
  show kept ++ taken.map (carried e) ++ [] = _
  rw [List.append_nil]
  exact (doc.length_eq ▸ hscan).eq_boundaries hlocal.isLawful

/-- **An absorbed edit keeps the table right** when nothing goes unseen. -/
theorem holds (h : Absorbed lex doc a e a' kept taken left state) (hlocal : lex.LineLocal)
    (hedit : Edited text doc.chars e) (hholds : a.table.Holds lex text)
    (hseen : ¬Unseen lex a doc e) : a'.table.Holds lex doc.chars := by
  by_cases hlt : windowStop doc e < doc.length
  · exact h.holds_of_landing hlocal hedit hholds hseen hlt
  · exact h.holds_of_last hlocal hedit hholds hlt

end Absorbed

/-- An absorbed edit keeps the analysis faithful when nothing goes unseen. -/
theorem Faithful.update (h : a.Faithful lex text) (hlocal : lex.LineLocal)
    (hedit : Edited text doc.chars e) {budget : Nat} (hup : a.update? lex doc e budget = some a')
    (hseen : ¬Unseen lex a doc e) : a'.Faithful lex doc.chars := by
  obtain ⟨kept, taken, left, state, habsorbed⟩ := absorbed_of_update? hlocal hedit h.table hup
  refine ⟨habsorbed.holds hlocal hedit h.table hseen, ?_⟩
  intro s' hs'
  rw [habsorbed.result] at hs'
  obtain ⟨s, hs, hadjust⟩ := Option.bind_eq_some_iff.1 hs'
  obtain ⟨og, hfits⟩ := h.saved s hs
  obtain ⟨l₁, l₂, -, -, hfits'⟩ := hfits.adjust hedit hadjust
  exact ⟨_, hfits'⟩

/-! ## Where it does go wrong -/

namespace Absorbed

/-- Nothing that is left alone or expected lies at the end of the edit. -/
theorem offset_ne_newStop (h : Absorbed lex doc a e a' kept taken left state) :
    ∀ b ∈ kept ++ taken.map (carried e), b.offset ≠ e.newStop := by
  intro b hb
  rcases List.mem_append.1 hb with hb | hb
  · have hlt := h.kept_lt b hb
    have hnew : e.pos ≤ e.newStop := Nat.le_add_right _ _
    omega
  · obtain ⟨b', hb', rfl⟩ := List.mem_map.1 hb
    exact h.free b' hb'

/-- A boundary that a deletion begins with is among what is left to move along. -/
theorem mem_left_of_first (h : Absorbed lex doc a e a' kept taken left state) (hneg : e.delta < 0)
    {b : Boundary} (hb : b ∈ a.table.entries) (hat : b.offset = e.pos) : b ∈ left := by
  have hnew : e.newStop = e.pos := by
    show e.pos + e.delta.toNat = e.pos
    omega
  rw [h.entries] at hb
  rcases List.mem_append.1 hb with hin | hin
  · exact absurd (hat ▸ h.kept_lt _ hin) (Nat.lt_irrefl _)
  · rcases List.mem_append.1 hin with hin | hin
    · -- it would be carried to the end of the edit, where the scan has found nothing
      have hmoved : moved? e b = some e.pos := by
        rw [moved?, if_pos (.inr ⟨hneg, hat⟩), hat]
      refine absurd ?_ (h.free _ hin)
      rw [carried, hmoved, hnew]
      rfl
    · exact hin

/-- The window cuts off what a deletion begins with. -/
theorem cuts_first (h : Absorbed lex doc a e a' kept taken left state) (hlocal : lex.LineLocal)
    (hedit : Edited text doc.chars e) (hholds : a.table.Holds lex text) (hneg : e.delta < 0)
    {b : Boundary} (hb : b ∈ a.table.entries) (hat : b.offset = e.pos) :
    windowStop doc e < doc.length ∧ ∃ w y more behind at' q last,
      Meets lex text doc a e (kept ++ taken) left w (y :: more) behind at' q last := by
  have hleft := h.mem_left_of_first hneg hb hat
  have hlt := h.windowStop_lt_of_mem hleft
  obtain ⟨w, more, behind, at', q, last, hmeets⟩ := h.meets hlocal hedit hholds hlt
  have hstops := e.stops
  have hbehind := hmeets.landing.behind
  cases more with
  | nil =>
      rw [hmeets.left, List.nil_append] at hleft
      have : w ≤ b.offset := hmeets.le _ hleft
      omega
  | cons y more => exact ⟨hlt, w, y, more, behind, at', q, last, hmeets⟩

/-- In a table that holds, what is moved along lies at or behind the end of the window. -/
theorem windowStop_le (h : Absorbed lex doc a e a' kept taken left state)
    (hlocal : lex.LineLocal) (hlt : windowStop doc e < doc.length) {y : Boundary} {rest : List Boundary}
    (hentries : a'.table.entries = kept ++ taken.map (carried e) ++ y :: rest)
    (hholds' : a'.table.Holds lex doc.chars) : windowStop doc e ≤ y.offset := by
  obtain ⟨q', last', hscan', -⟩ := hholds'.scans hlocal.isLawful
  have hscan := h.scan
  rw [if_pos hlt] at hscan
  have hall := hscan'.boundaries hlocal.isLawful
  rw [hentries, hscan.boundaries hlocal.isLawful, List.append_assoc (kept ++ taken.map (carried e)),
    List.append_cancel_left_eq, List.cons_append] at hall
  have hregular := Lexicon.regular_boundaries lex doc.chars (windowStop doc e) state
  rw [hall] at hregular
  exact hregular.1

/-- An opening that a deletion begins with is moved to where nothing opens. -/
theorem not_holds_of_opening (h : Absorbed lex doc a e a' kept taken left state)
    (hlocal : lex.LineLocal) (hedit : Edited text doc.chars e) (hholds : a.table.Holds lex text)
    (hneg : e.delta < 0) {b : Boundary} (hb : b ∈ a.table.entries) (hat : b.offset = e.pos) :
    ¬a'.table.Holds lex doc.chars := by
  have hnew : e.newStop = e.pos := by
    show e.pos + e.delta.toNat = e.pos
    omega
  obtain ⟨hlt, w, y, more, behind, at', q, last, hmeets⟩ :=
    h.cuts_first hlocal hedit hholds hneg hb hat
  obtain ⟨-, hat, hy, hwindow⟩ := hmeets.opening y more rfl
  have hnl : doc.chars[e.pos]? = some '\n' := by
    rcases hmeets.landing.window with ⟨hlt', -⟩ | ⟨-, -, -, hnl, -⟩
    · omega
    · rwa [hnew] at hnl
  have hentries : a'.table.entries = kept ++ taken.map (carried e) ++
      (y.shifted e.delta :: (more ++ behind).map (·.shifted e.delta)) := by
    rw [h.result, hmeets.left]
    rfl
  intro hholds'
  -- the window's scan has got to the edit, so the opening cannot have moved before that
  have hge : e.pos ≤ shift y.offset e.delta :=
    hwindow ▸ h.windowStop_le hlocal hlt hentries hholds'
  have hle : shift e.pos e.delta ≤ e.pos := by
    show ((e.pos : Int) + e.delta).toNat ≤ e.pos
    omega
  have hoffset : (y.shifted e.delta).offset = e.pos := by
    rw [hat] at hge
    show shift y.offset e.delta = e.pos
    rw [hat]
    exact Nat.le_antisymm hle hge
  have hmem : y.shifted e.delta ∈ a'.table.entries := by
    rw [hentries]
    simp
  exact not_newline_of_opens hholds' hlocal hmem hy (by rwa [hoffset])

/-- An empty close at the end of the edit is none of the table's boundaries. -/
theorem close_not_mem (h : Absorbed lex doc a e a' kept taken left state) (hlocal : lex.LineLocal)
    (hedit : Edited text doc.chars e) (hholds : a.table.Holds lex text)
    (hopens : ¬(e.delta < 0 ∧ ∃ b ∈ a.table.entries, b.offset = e.pos ∧ b.opens = true)) :
    Boundary.closing e.newStop ∉ a'.table.entries := by
  intro hmem
  rw [h.result] at hmem
  rcases List.mem_append.1 hmem with hmem | hmem
  · exact h.offset_ne_newStop _ hmem rfl
  · -- what is left lies behind the landing, and stays behind it
    obtain ⟨b, hb, heq⟩ := List.mem_map.1 hmem
    have hat : shift b.offset e.delta = e.newStop := congrArg Boundary.offset heq
    obtain ⟨w, more, behind, at', q, last, hmeets⟩ :=
      h.meets hlocal hedit hholds (h.windowStop_lt_of_mem hb)
    rw [hmeets.left, h.more_eq_nil hmeets hopens, List.nil_append] at hb
    have hge := hmeets.le b hb
    have hbehind := hmeets.landing.behind
    have hstops := e.stops
    have := shift_of_le (Nat.le_of_lt (Nat.lt_of_lt_of_le hbehind hge))
    omega

/-- The table has got past the end of the edit. -/
theorem newStop_lt (h : Absorbed lex doc a e a' kept taken left state)
    (hinside : e.newStop ≤ doc.chars.size) {q : Nat}
    (hsome : ∀ f, a'.table.frontier = some f → q = f.offset)
    (hnone : a'.table.frontier = none → q = doc.chars.size + 1) : e.newStop < q := by
  rw [h.result] at hsome hnone
  cases hf : a.table.frontier with
  | none =>
      rw [hf] at hnone
      rw [hnone rfl]
      exact Nat.lt_succ_of_le hinside
  | some f =>
      rw [hf] at hsome
      have hfar := (h.far f hf).2
      obtain ⟨-, hstop, -⟩ := windowStop_spec doc (doc.length_eq ▸ hinside)
      have hq : q = shift f.offset e.delta := hsome _ rfl
      omega

/-- An empty close at the end of the edit is missing. -/
theorem not_holds_of_close (h : Absorbed lex doc a e a' kept taken left state)
    (hlocal : lex.LineLocal) (hedit : Edited text doc.chars e) (hholds : a.table.Holds lex text)
    (hclose : Boundary.closing e.newStop ∈ lex.boundaries doc.chars 0 .outside)
    (hopens : ¬(e.delta < 0 ∧ ∃ b ∈ a.table.entries, b.offset = e.pos ∧ b.opens = true)) :
    ¬a'.table.Holds lex doc.chars := by
  intro hholds'
  obtain ⟨q, last, hscan, -, hsome, hnone⟩ := hholds'.scans hlocal.isLawful
  -- the table has got past the end of the edit, so it should have the close
  have hreach := h.newStop_lt hedit.newStop_le (fun f hf => (hsome f hf).1) hnone
  rw [hscan.boundaries hlocal.isLawful] at hclose
  rcases List.mem_append.1 hclose with hin | hin
  · exact h.close_not_mem hlocal hedit hholds hopens hin
  · have : q ≤ e.newStop := (Lexicon.regular_boundaries lex doc.chars q last).le_offset hin
    omega

end Absorbed

/-- **An absorbed edit is right exactly when nothing goes unseen.** -/
theorem update?_holds_iff (hlocal : lex.LineLocal) (hedit : Edited text doc.chars e)
    (hholds : a.table.Holds lex text) {budget : Nat}
    (hup : a.update? lex doc e budget = some a') :
    a'.table.Holds lex doc.chars ↔ ¬Unseen lex a doc e := by
  obtain ⟨kept, taken, left, state, habsorbed⟩ := absorbed_of_update? hlocal hedit hholds hup
  constructor
  · intro hholds' hunseen
    by_cases hopens : e.delta < 0 ∧ ∃ b ∈ a.table.entries, b.offset = e.pos ∧ b.opens = true
    · obtain ⟨hneg, b, hb, hat, -⟩ := hopens
      exact habsorbed.not_holds_of_opening hlocal hedit hholds hneg hb hat hholds'
    · exact habsorbed.not_holds_of_close hlocal hedit hholds (hunseen.resolve_right hopens) hopens
        hholds'
  · exact habsorbed.holds hlocal hedit hholds

end Analysis

end Highlighter
