import Mathlib.Data.List.Forall2
import Highlighter.Proofs.Absorption
import Highlighter.Proofs.Spans
import Highlighter.Session

/-! # Attempts — what an edit makes of the boundaries

    An edit is absorbed, or the analysis stays as it was (`absorb`).  When it is absorbed
    each boundary is carried along: those before the edit stay where they are, those
    behind it move with the text, and none comes or goes (`Absorbed.carries`).

    Whether the boundaries are then those of the new text is another matter.  They are
    when the edit leaves something in its line (`Absorbed.emptiesLine`); else two things
    can go unseen, and the edit should have been refused. -/

namespace Highlighter

variable {lex : Lexicon} {text : Array Char}

namespace Analysis

variable {a a' : Analysis} {doc : Document} {e : Edit} {kept taken left : List Boundary}
  {state : ScanState}

/-- The analysis after an attempt to absorb an edit, and whether it was absorbed. -/
def absorb (lex : Lexicon) (a : Analysis) (doc : Document) (e : Edit) (budget : Nat) :
    Analysis × Bool :=
  match a.update? lex doc e budget with
  | some a' => (a', true)
  | none => (a, false)

/-- An edit is absorbed when the table can be brought up to date. -/
theorem absorb_eq_true_iff {budget : Nat} :
    a.absorb lex doc e budget = (a', true) ↔ a.update? lex doc e budget = some a' := by
  rw [absorb]
  cases a.update? lex doc e budget <;> simp

/-- An edit that is not absorbed changes nothing. -/
theorem absorb_eq_false {budget : Nat} (h : a.absorb lex doc e budget = (a', false)) : a' = a := by
  rw [absorb] at h
  cases hup : a.update? lex doc e budget with
  | none =>
      rw [hup] at h
      exact (Prod.ext_iff.1 h).1.symm
  | some a'' =>
      rw [hup] at h
      exact absurd (Prod.ext_iff.1 h).2 Bool.false_ne_true.symm

/-- A session attempts to absorb an edit, and cuts the analysis back when that fails. -/
theorem repair_eq_absorb (s : Session) (doc : Document) (e : Edit) :
    s.repair doc e =
      if s.lexicon.hasRegions then
        match s.analysis.absorb s.lexicon doc e s.settings.stepBudget with
        | (a, true) => { s with analysis := a }
        | (a, false) => { s with analysis := a.invalidate doc e, pacer := s.pacer.arm }
      else s := by
  rw [Session.repair, absorb]
  cases s.analysis.update? s.lexicon doc e s.settings.stepBudget <;> rfl

/-! ## Each boundary by itself -/

/-- A boundary of the old text and what the edit has made of it. -/
structure Carries (e : Edit) (b b' : Boundary) : Prop where
  tag    : b'.tag = b.tag
  depth  : b'.depth = b.depth
  before : b.offset < e.pos → b'.offset = b.offset
  behind : e.oldStop ≤ b.offset → (b'.offset : Int) = b.offset + e.delta

variable {b : Boundary}

/-- A boundary before the edit is carried by itself. -/
theorem carries_self (h : b.offset < e.pos) : Carries e b b := by
  refine ⟨rfl, rfl, fun _ => rfl, ?_⟩
  intro hold
  have hpos : e.pos ≤ e.oldStop := Nat.le_add_right _ _
  omega

/-- A boundary behind the edit is carried by the one that is moved along. -/
theorem carries_shifted (h : e.pos ≤ b.offset) : Carries e b (b.shifted e.delta) := by
  refine ⟨rfl, rfl, ?_, shift_of_le⟩
  intro hlt
  exact absurd hlt (Nat.not_lt.2 h)

theorem moved?_of_before (h : b.offset < e.pos) : moved? e b = some b.offset := by
  rw [moved?, if_pos (.inl h)]

/-- A boundary that is not dropped is carried by where it is moved to. -/
theorem carries_carried (h : (moved? e b).isSome = true) : Carries e b (carried e b) := by
  have hmoved := moved?_carried h
  refine ⟨rfl, rfl, ?_, ?_⟩
  · intro hlt
    rw [moved?_of_before hlt] at hmoved
    exact (Option.some.inj hmoved).symm
  · intro hold
    have hshift := shift_of_le hold
    -- at the end of the edit itself it depends on what the boundary is
    rcases Nat.eq_or_lt_of_le hold with heq | hlt
    · have hdelta : e.oldStop = e.pos + (-e.delta).toNat := rfl
      rcases moved?_of_le hmoved (Nat.le_of_eq heq.symm) with ⟨-, hlt⟩ | ⟨-, hat, hneg⟩ | ⟨hat, -, -⟩
      · omega
      · omega
      · rw [hat, newStop_eq_shift, heq]
        exact hshift
    · rw [moved?_of_lt hlt] at hmoved
      rw [← Option.some.inj hmoved]
      exact hshift

/-- The edit has left its line empty. -/
def EmptiesLine (doc : Document) (e : Edit) : Prop :=
  IsLineStart doc.chars e.newStop ∧ doc.chars[e.newStop]? = some '\n'

instance (doc : Document) (e : Edit) : Decidable (EmptiesLine doc e) :=
  inferInstanceAs (Decidable (_ ∧ _))

namespace Absorbed

/-- What is left to move along lies behind the start of the edit. -/
theorem pos_le_left (h : Absorbed lex doc a e a' kept taken left state)
    (hedit : Edited text doc.chars e) (hholds : a.table.Holds lex text) :
    ∀ b ∈ left, e.pos ≤ b.offset := by
  intro b hb
  cases left with
  | nil => exact absurd hb List.not_mem_nil
  | cons x rest =>
      obtain ⟨w, hw, o, hmoved, hout⟩ := h.beyond x rest rfl
      obtain ⟨hlt, hw⟩ := Option.ite_none_right_eq_some.1 hw
      obtain rfl := Option.some.inj hw
      have hstop := (windowStop_spec doc (doc.length_eq ▸ hedit.newStop_le)).2.1
      have hnew : e.pos ≤ e.newStop := Nat.le_add_right _ _
      -- it is enough for the first of them, as they are in order
      have hx : e.pos ≤ x.offset := by
        apply Nat.le_of_not_lt
        intro hbefore
        rw [moved?_of_before hbefore] at hmoved
        have := Option.some.inj hmoved
        omega
      have hordered := hholds.regular.pairwise
      rw [h.entries, List.pairwise_append, List.pairwise_append] at hordered
      rcases List.mem_cons.1 hb with rfl | hb
      · exact hx
      · exact Nat.le_trans hx (List.rel_of_pairwise_cons hordered.2.1.2.1 hb)

/-- **An absorbed edit carries each boundary along.** -/
theorem carries (h : Absorbed lex doc a e a' kept taken left state)
    (hedit : Edited text doc.chars e) (hholds : a.table.Holds lex text) :
    List.Forall₂ (Carries e) a.table.entries a'.table.entries := by
  have hkept : List.Forall₂ (Carries e) kept kept := by
    rw [List.forall₂_same]
    intro b hb
    exact carries_self (h.kept_lt b hb)
  have htaken : List.Forall₂ (Carries e) taken (taken.map (carried e)) := by
    rw [List.forall₂_map_right_iff, List.forall₂_same]
    intro b hb
    exact carries_carried (h.moved b hb)
  have hleft : List.Forall₂ (Carries e) left (left.map (·.shifted e.delta)) := by
    rw [List.forall₂_map_right_iff, List.forall₂_same]
    intro b hb
    exact carries_shifted (h.pos_le_left hedit hholds b hb)
  rw [h.entries, h.result, ← List.append_assoc]
  exact List.rel_append (List.rel_append hkept htaken) hleft

/-! ## Edits that leave their line empty -/

/-- Something goes unseen only where the window of the edit ends with it. -/
theorem windowStop_eq (h : Absorbed lex doc a e a' kept taken left state) (hlocal : lex.LineLocal)
    (hedit : Edited text doc.chars e) (hholds : a.table.Holds lex text)
    (hunseen : Unseen lex a doc e) : windowStop doc e < doc.length ∧ windowStop doc e = e.newStop := by
  have hstop := (windowStop_spec doc (doc.length_eq ▸ hedit.newStop_le)).2.1
  rcases hunseen with hclose | ⟨hneg, b, hb, hat, -⟩
  · -- the scan up to the end of the window has not found the close
    rw [h.scan.boundaries hlocal.isLawful] at hclose
    have hfront : Boundary.closing e.newStop ∉ kept ++ taken.map (carried e) := by
      intro hin
      exact h.offset_ne_newStop _ hin rfl
    have hle : _ ≤ e.newStop := (Lexicon.regular_boundaries lex doc.chars _ state).le_offset
      ((List.mem_append.1 hclose).resolve_left hfront)
    have hnew := hedit.newStop_le
    have hlen : doc.length = doc.chars.size := doc.length_eq
    split at hle <;> omega
  · obtain ⟨hlt, w, y, more, behind, at', q, last, hmeets⟩ :=
      h.cuts_first hlocal hedit hholds hneg hb hat
    obtain ⟨-, -, -, hwindow⟩ := hmeets.opening y more rfl
    have hnew : e.newStop = e.pos + e.delta.toNat := rfl
    exact ⟨hlt, by omega⟩

/-- **Something goes unseen only where the edit has left its line empty.** -/
theorem emptiesLine (h : Absorbed lex doc a e a' kept taken left state) (hlocal : lex.LineLocal)
    (hedit : Edited text doc.chars e) (hholds : a.table.Holds lex text)
    (hunseen : Unseen lex a doc e) : EmptiesLine doc e := by
  obtain ⟨hlt, heq⟩ := h.windowStop_eq hlocal hedit hholds hunseen
  obtain ⟨⟨-, hbreak⟩, -, hcases⟩ := windowStop_spec doc (doc.length_eq ▸ hedit.newStop_le)
  have hline := hbreak.resolve_right (Nat.ne_of_lt hlt)
  rw [heq] at hline
  rcases hcases hlt with ⟨hgt, -⟩ | ⟨-, hnewline⟩
  · omega
  · exact ⟨hline, hnewline⟩

end Absorbed

/-- **An attempt to absorb an edit** leaves the analysis alone, or carries each boundary and the
    frontier along.  In the second case the table is again right up to its frontier exactly when
    nothing goes unseen, and so whenever the edit leaves something in its line. -/
theorem absorb_spec (hlocal : lex.LineLocal) (hedit : Edited text doc.chars e)
    (hholds : a.table.Holds lex text) (budget : Nat) :
    (∀ a', a.absorb lex doc e budget = (a', false) → a' = a) ∧
      ∀ a', a.absorb lex doc e budget = (a', true) →
        List.Forall₂ (Carries e) a.table.entries a'.table.entries ∧
          a'.table.frontier =
            a.table.frontier.map (fun f => { f with offset := shift f.offset e.delta }) ∧
          (a'.table.Holds lex doc.chars ↔ ¬Unseen lex a doc e) ∧
          (Unseen lex a doc e → EmptiesLine doc e) := by
  refine ⟨fun a' h => absorb_eq_false h, ?_⟩
  intro a' h
  have hup := absorb_eq_true_iff.1 h
  obtain ⟨kept, taken, left, state, habsorbed⟩ := absorbed_of_update? hlocal hedit hholds hup
  refine ⟨habsorbed.carries hedit hholds, ?_, update?_holds_iff hlocal hedit hholds hup,
    habsorbed.emptiesLine hlocal hedit hholds⟩
  rw [habsorbed.result]

/-! ## Two edits of a region over two lines -/

/-- An analysis that has got through its text. -/
def complete (entries : List Boundary) : Analysis := { table := { entries, frontier := none } }

variable {entries expected : List Boundary} {stop budget : Nat}

/-- When nothing is kept and the edited lines are not the last, an attempt scans from the start of the
    text and up to a line start. -/
theorem absorb_complete (hkept : keptBefore entries (doc.lineStart e.pos) = [])
    (hstop : windowStop doc e = stop) (hlt : stop < doc.length)
    (hexpected : expected? e (some stop) entries = some expected)
    (hconfirms : confirms lex (doc.slice ⟨0, lookahead doc stop⟩) 0 (some stop) e budget 0 .outside
      expected = true) :
    (complete entries).absorb lex doc e budget =
      (complete (expected ++ (entries.drop expected.length).map (·.shifted e.delta)), true) := by
  have hbase : doc.lineStart 0 = 0 := by
    have := doc.lineStart_le 0
    omega
  rw [windowStop] at hstop
  rw [absorb_eq_true_iff, update?]
  simp only [complete, Option.any_none, Bool.false_eq_true, if_false, hkept, List.length_nil,
    List.drop_zero, hstop, hlt, if_true, hexpected, lastOffset, List.getLast?_nil, Option.map_none,
    Option.getD_none, hbase, Option.map_some, Nat.sub_zero, hconfirms, List.nil_append,
    Option.bind_none]

/-- A list whose opening stands alone in its line. -/
def loneOpening : Document := .ofString "\n(\nb)\n"

theorem holds_escapedList :
    (complete [.opening 0 1, .closing 6]).table.Holds (.ofGrammar .lisp) Document.escapedList.chars :=
  Grammar.boundaries_escapedList.symm

theorem holds_loneOpening :
    (complete [.opening 1 1, .closing 5]).table.Holds (.ofGrammar .lisp) loneOpening.chars := by
  have hscan : (Lexicon.ofGrammar .lisp).Scans loneOpening.chars 0 .outside
      [.opening 1 1, .closing 5] 7 .outside := by
    have hout := Grammar.delimiterAt?_lisp_outside loneOpening.chars
    have hin := Grammar.delimiterAt?_lisp_list loneOpening.chars
    refine .skip (by decide) (hout 0) (.take (by decide) (hout 1) ?_)
    refine .skip (by decide) (hin 2) (.skip (by decide) (hin 3) ?_)
    refine .take (by decide) (hin 4) ?_
    exact .skip (by decide) (hout 5) (.skip (by decide) (hout 6) .done)
  exact hscan.eq_boundaries Grammar.lineLocal_lisp.isLawful

/-- A char put in at the end of the first line: the close moves along. -/
theorem absorb_escapedList :
    (complete [.opening 0 1, .closing 6]).absorb (.ofGrammar .lisp)
      (Document.escapedList.insert 3 #['x']) (.insertion 3 1) 64 =
        (complete [.opening 0 1, .closing 7], true) := by
  have hlawful := Grammar.lineLocal_lisp.isLawful
  have hopens : (Lexicon.ofGrammar .lisp).step (Document.escapedList.insert 3 #['x']).chars 0 .outside =
      some ⟨0, 0, 1, .inside 1⟩ := by
    simp only [Lexicon.step_eq_firstFrom hlawful, Grammar.delimiterAt?_lisp_outside]
    rfl
  have hcloses : (Lexicon.ofGrammar .lisp).step (Document.escapedList.insert 3 #['x']).chars 1
      (.inside 1) = some ⟨6, 7, 7, .outside⟩ := by
    simp only [Lexicon.step_eq_firstFrom hlawful, Grammar.delimiterAt?_lisp_list]
    rfl
  have hkept : keptBefore [.opening 0 1, .closing 6]
      ((Document.escapedList.insert 3 #['x']).lineStart 3) = [] := by
    decide +kernel
  have hexpected : expected? (.insertion 3 1) (some 5) [.opening 0 1, .closing 6] =
      some [.opening 0 1] := by
    decide
  have hstop : windowStop (Document.escapedList.insert 3 #['x']) (.insertion 3 1) = 5 := by
    decide +kernel
  have hlt : 5 < (Document.escapedList.insert 3 #['x']).length := by decide +kernel
  have hwindow : (Document.escapedList.insert 3 #['x']).slice
      ⟨0, lookahead (Document.escapedList.insert 3 #['x']) 5⟩ =
        (Document.escapedList.insert 3 #['x']).chars := by
    decide +kernel
  refine absorb_complete hkept hstop hlt hexpected ?_
  rw [hwindow, confirms, hopens]
  show confirms _ _ 0 (some 5) _ 63 1 (.inside 1) [] = true
  rw [confirms, hcloses]
  rfl

/-- The opening taken away: its line is left empty, and the scan of it ends before it begins. -/
theorem absorb_loneOpening :
    (complete [.opening 1 1, .closing 5]).absorb (.ofGrammar .lisp) (loneOpening.delete ⟨1, 2⟩)
      (.deletion 1 2) 64 = (complete [.opening 0 1, .closing 4], true) := by
  have hends : (Lexicon.ofGrammar .lisp).step ((loneOpening.delete ⟨1, 2⟩).slice ⟨0, 2⟩) 0 .outside =
      none := by
    simp only [Lexicon.step_eq_firstFrom Grammar.lineLocal_lisp.isLawful,
      Grammar.delimiterAt?_lisp_outside]
    rfl
  have hkept :
      keptBefore [.opening 1 1, .closing 5] ((loneOpening.delete ⟨1, 2⟩).lineStart 1) = [] := by
    decide +kernel
  have hexpected : expected? (.deletion 1 2) (some 1) [.opening 1 1, .closing 5] = some [] := by decide
  have hstop : windowStop (loneOpening.delete ⟨1, 2⟩) (.deletion 1 2) = 1 := by decide +kernel
  have hlt : 1 < (loneOpening.delete ⟨1, 2⟩).length := by decide +kernel
  have hahead : lookahead (loneOpening.delete ⟨1, 2⟩) 1 = 2 := by decide +kernel
  refine absorb_complete hkept hstop hlt hexpected ?_
  rw [hahead, confirms, hends]
  rfl

/-- Both edits are absorbed.  The first leaves the table right; in the text of the second nothing opens
    any more, but the table still has the list. -/
theorem absorb_spec_lisp :
    ((complete [.opening 0 1, .closing 6]).absorb (.ofGrammar .lisp)
        (Document.escapedList.insert 3 #['x']) (.insertion 3 1) 64 =
          (complete [.opening 0 1, .closing 7], true) ∧
      (complete [.opening 0 1, .closing 7]).table.Holds (.ofGrammar .lisp)
        (Document.escapedList.insert 3 #['x']).chars) ∧
    (complete [.opening 1 1, .closing 5]).absorb (.ofGrammar .lisp) (loneOpening.delete ⟨1, 2⟩)
        (.deletion 1 2) 64 = (complete [.opening 0 1, .closing 4], true) ∧
      ¬(complete [.opening 0 1, .closing 4]).table.Holds (.ofGrammar .lisp)
        (loneOpening.delete ⟨1, 2⟩).chars := by
  have hinsert : Edited Document.escapedList.chars (Document.escapedList.insert 3 #['x']).chars
      (.insertion 3 1) :=
    edited_insert .escapedList (by decide +kernel) #['x']
  have hdelete : Edited loneOpening.chars (loneOpening.delete ⟨1, 2⟩).chars (.deletion 1 2) :=
    edited_delete loneOpening (by decide +kernel) (by decide +kernel)
  obtain ⟨-, htwo⟩ := absorb_spec Grammar.lineLocal_lisp hinsert holds_escapedList 64
  obtain ⟨-, -, hright, hempties⟩ := htwo _ absorb_escapedList
  obtain ⟨-, hlone⟩ := absorb_spec Grammar.lineLocal_lisp hdelete holds_loneOpening 64
  obtain ⟨-, -, hright', -⟩ := hlone _ absorb_loneOpening
  refine ⟨⟨absorb_escapedList, ?_⟩, absorb_loneOpening, ?_⟩
  · rw [hright]
    intro hunseen
    exact absurd (hempties hunseen) (by decide +kernel)
  · rw [hright', Classical.not_not]
    exact .inr ⟨by decide +kernel, .opening 1 1, by decide +kernel⟩

end Analysis

end Highlighter
