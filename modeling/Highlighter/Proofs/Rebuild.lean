import Highlighter.Buffer
import Highlighter.Proofs.Upkeep

/-! # Rebuild — a buffer that has been edited is as good as a new one

    Every operation of a buffer keeps its session in step with its text, an edit unless it is
    missed: absorbed with something that goes unseen, or overlooked when the table is cut
    back (`Session.Misses`).  A session in step answers what the whole text says, and so does
    a new one.  A missed edit leaves a boundary in the table that the text has not, or loses
    one.  So a buffer is as new all along exactly when it misses no edit
    (`asNew_iff_not_missed`). -/

namespace Highlighter

variable {doc doc' : Document} {e : Edit}

/-! ## Sessions under edits -/

namespace Session

variable {s : Session} {staleness : Staleness} {paint : Paint}

/-- An edit that leaves the table with boundaries that the text has not, or without one that it
    has. -/
def Misses (s : Session) (doc : Document) (e : Edit) : Prop :=
  s.lexicon.hasRegions = true ∧
    match s.analysis.update? s.lexicon doc e s.settings.stepBudget with
    | some _ => Analysis.Unseen s.lexicon s.analysis doc e
    | none => s.analysis.Overlooks s.lexicon doc e

/-- Paint and stale offsets that have been moved follow the edit once its lines are stale. -/
theorem InStep.followed (h : s.InStep doc) (hedit : Edited doc.chars doc'.chars e)
    (hpaint : s.paint.Carried paint e) (hdirty : s.staleness.dirty.Carried staleness.dirty e) :
    Followed doc' e s.paint paint s.staleness.dirty
      (staleness.mark (doc'.snapToLines ⟨e.pos, e.newStop⟩)).dirty := by
  have hstops := e.stops
  have hnew : e.newStop ≤ doc'.chars.size := hedit.newStop_le
  have hsize : shift doc.chars.size e.delta = doc'.chars.size := hedit.shift_size
  have hlines := doc'.snapToLines_eq (e := ⟨e.pos, e.newStop⟩) hstops.2.1 (doc'.length_eq ▸ hnew)
  rw [doc'.length_eq] at hlines
  refine ⟨hpaint, ?_, ?_, ?_, ?_, ?_⟩
  · intro x hx hlt
    exact ExtentSet.mem_insert (.inl (hdirty.before x hx hlt))
  · intro x hx hle
    exact ExtentSet.mem_insert (.inl (hdirty.behind x hx hle))
  · intro x hstart hend hlt
    refine ExtentSet.mem_insert (.inr ?_)
    rw [hlines]
    refine ⟨hstart, ?_⟩
    show x < min (doc'.lineEnd e.newStop + 1) doc'.chars.size
    omega
  · rw [← hsize]
    exact hpaint.laid _ hedit.inside h.paint.laid
  · have hupto := hdirty.upto _ hedit.inside h.paint.upto
    rw [hsize] at hupto
    refine hupto.insert ?_
    rw [hlines]
    exact Nat.min_le_right _ _

theorem keeps_applyEdit (s : Session) (doc : Document) (e : Edit) : s.Keeps (s.applyEdit doc e) := by
  rw [applyEdit, repair]
  split
  · split
    · split
      · exact ⟨rfl, rfl, rfl⟩
      · exact ⟨rfl, rfl, rfl⟩
    · exact ⟨rfl, rfl, rfl⟩
  · exact .refl s

/-- **An edit that is not missed** keeps the session in step. -/
theorem InStep.applyEdit (h : s.InStep doc) (htokens : s.lexicon.TokensLocal)
    (hlocal : s.lexicon.LineLocal) (hstops : s.lexicon.StopsUnescaped) (henabled : s.enabled = true)
    (hedit : Edited doc.chars doc'.chars e) (hpaint : s.paint.Carried paint e)
    (hdirty : s.staleness.dirty.Carried staleness.dirty e) (hnot : ¬s.Misses doc' e) :
    (Session.applyEdit { s with staleness, paint } doc' e).InStep doc' := by
  have hfollowed := h.followed hedit hpaint hdirty
  rw [Session.applyEdit, if_pos henabled, repair]
  by_cases hregions : s.lexicon.hasRegions = true
  · have hnone : s.lexicon.hasRegions = false → ∀ a : Analysis, a.Quiet :=
      fun hno => absurd (hregions.symm.trans hno) (by decide)
    rw [if_pos hregions]
    cases hup : s.analysis.update? s.lexicon doc' e s.settings.stepBudget with
    | some a' =>
        refine ⟨?_, .inl hstops, fun hno => hnone hno _⟩
        refine h.paint.absorb htokens hlocal hedit hfollowed hup fun hunseen => hnot ⟨hregions, ?_⟩
        rw [hup]
        exact hunseen
    | none =>
        refine ⟨?_, .inl hstops, fun hno => hnone hno _⟩
        refine h.paint.invalidate htokens hlocal hedit hfollowed fun hover => hnot ⟨hregions, ?_⟩
        rw [hup]
        exact hover
  · have hno := Bool.eq_false_iff.2 hregions
    rw [if_neg hregions]
    exact ⟨h.paint.plain htokens hlocal hno (h.quiet hno) hedit hfollowed, .inl hstops, h.quiet⟩

/-- **A missed edit** leaves a table that does not hold. -/
theorem Misses.not_holds (hmissed : s.Misses doc' e) (h : s.InStep doc)
    (hlocal : s.lexicon.LineLocal) (henabled : s.enabled = true)
    (hedit : Edited doc.chars doc'.chars e) :
    ¬(Session.applyEdit { s with staleness, paint } doc' e).analysis.table.Holds s.lexicon
      doc'.chars := by
  obtain ⟨hregions, hmissed⟩ := hmissed
  rw [Session.applyEdit, if_pos henabled, repair, if_pos hregions]
  cases hup : s.analysis.update? s.lexicon doc' e s.settings.stepBudget with
  | some a' =>
      rw [hup] at hmissed
      intro hholds
      exact (Analysis.update?_holds_iff hlocal hedit h.paint.table hup).1 hholds hmissed
  | none =>
      rw [hup] at hmissed
      intro hholds
      obtain ⟨b, hb, hmissing⟩ := Analysis.Overlooks.stale hmissed
      obtain ⟨more, hmore, -⟩ := hholds.exists_more hlocal.isLawful
      refine hmissing ?_
      rw [hmore]
      exact List.mem_append_left more hb

end Session

/-! ## Buffers -/

namespace Buffer

variable {b : Buffer} {g : Grammar}

/-- An operation of a buffer that has a language. -/
inductive Op where
  | change (c : Change)
  | highlight (range : Extent)
  | request (range : Extent)
  | runBackground (nanoseconds : Nat)
  | matchingBracket (pos : Nat)
  | jumpToBracket (pos : Nat)

/-- A buffer after a change of its text. -/
def change (b : Buffer) : Change → Buffer
  | .insert pos text => b.insert pos text
  | .delete range => (b.delete range).1

namespace Op

/-- A buffer after an operation. -/
def apply (b : Buffer) : Op → Buffer
  | .change c => b.change c
  | .highlight range => (b.highlight range).1
  | .request range => b.request range
  | .runBackground nanoseconds => (b.runBackground nanoseconds).1
  | .matchingBracket pos => (b.matchingBracket pos).1
  | .jumpToBracket pos => (b.jumpToBracket pos).1

/-- The operation changes the text and the session misses it. -/
def Missed (b : Buffer) : Op → Prop
  | .change c => (c.edit b.document).delta ≠ 0 ∧
      b.session.Misses (c.apply b.document) (c.edit b.document)
  | _ => False

end Op

/-- A buffer after some operations. -/
def run (b : Buffer) (ops : List Op) : Buffer := ops.foldl Op.apply b

/-- The table is right, and every range has the spans that a new buffer with this text and this
    grammar answers. -/
def AsNew (b : Buffer) (g : Grammar) : Prop :=
  b.session.analysis.table.Holds (.ofGrammar g) b.document.chars ∧
    ∀ (name : String) (settings : Settings), settings.highlight = true → ∀ range,
      (b.highlight range).2 = (((ofText name b.document settings).setGrammar g).highlight range).2

/-- A buffer with a grammar whose session is on and in step. -/
structure InStep (b : Buffer) (g : Grammar) : Prop where
  session : b.session.InStep b.document
  lexicon : b.session.lexicon = .ofGrammar g
  enabled : b.session.enabled = true

/-- Inserting something: the text gets it, stale offsets and paint move, and the session follows. -/
theorem insert_eq (b : Buffer) (pos : Nat) {text : Array Char} (hfull : text.size ≠ 0) :
    b.insert pos text = { b with
      document := b.document.insert (min pos b.length) text, modified := true
      session := Session.applyEdit
        { b.session with
          staleness := b.session.staleness.afterInsert (min pos b.length) text.size
          paint := b.session.paint.afterInsert (min pos b.length) text.size }
        (b.document.insert (min pos b.length) text) (.insertion (min pos b.length) text.size) } := by
  have hsome : ¬text.isEmpty = true := by simpa using hfull
  rw [Buffer.insert]
  dsimp only
  rw [if_neg hsome, Session.onInsert, if_neg hfull]

/-- Deleting something: the text loses it, stale offsets and paint move, and the session follows. -/
theorem delete_eq (b : Buffer) {range : Extent}
    (hfull : (b.document.slice (range.clampTo b.length)).size ≠ 0) :
    min range.start b.length < min range.stop b.length ∧ (b.delete range).1 = { b with
      document := b.document.delete (range.clampTo b.length), modified := true
      session := Session.applyEdit
        { b.session with
          staleness := b.session.staleness.afterDelete (min range.start b.length)
            (min range.stop b.length)
          paint := b.session.paint.afterDelete (min range.start b.length)
            (min range.stop b.length) }
        (b.document.delete (range.clampTo b.length))
        (.deletion (min range.start b.length) (min range.stop b.length)) } := by
  have hsize : (b.document.slice (range.clampTo b.length)).size =
      min range.stop b.length - min range.start b.length := b.document.size_slice_clampTo range
  have hlt : min range.start b.length < min range.stop b.length := by omega
  have hsome : ¬(b.document.slice (range.clampTo b.length)).isEmpty = true := by simpa using hfull
  refine ⟨hlt, ?_⟩
  rw [Buffer.delete]
  simp only [Document.remove_snd]
  rw [if_neg hsome, Session.onDelete]
  exact congrArg (fun session => { b with
    document := b.document.delete (range.clampTo b.length), modified := true, session })
    (if_neg (Nat.not_le.2 hlt))

/-- What a change does to a buffer: nothing, or an edit of its text. -/
theorem change_spec (hlaid : Laid 0 b.session.paint.spans b.length) (c : Change) :
    ((c.edit b.document).delta = 0 ∧ b.change c = b) ∨
      ((c.edit b.document).delta ≠ 0 ∧ ∃ staleness paint,
        b.session.paint.Carried paint (c.edit b.document) ∧
        b.session.staleness.dirty.Carried staleness.dirty (c.edit b.document) ∧
        (b.change c).document = c.apply b.document ∧
        (b.change c).session = Session.applyEdit { b.session with staleness, paint }
          (c.apply b.document) (c.edit b.document)) := by
  cases c with
  | insert pos text =>
      have hdelta : ((Change.insert pos text).edit b.document).delta = (text.size : Int) := rfl
      rw [hdelta]
      show (_ ∧ b.insert pos text = b) ∨ (_ ∧ ∃ staleness paint, _ ∧ _ ∧
        (b.insert pos text).document = _ ∧ (b.insert pos text).session = _)
      by_cases hempty : text.size = 0
      · left
        exact ⟨by omega, if_pos (by simpa using hempty)⟩
      · right
        rw [insert_eq b pos hempty]
        exact ⟨by omega, _, _, Paint.carried_afterInsert hlaid _ _,
          ExtentSet.carried_afterInsert _ _ _, rfl, rfl⟩
  | delete range =>
      have hdelta : ((Change.delete range).edit b.document).delta =
          -((min range.stop b.length - min range.start b.length : Nat) : Int) := rfl
      have hsize : (b.document.slice (range.clampTo b.length)).size =
          min range.stop b.length - min range.start b.length := b.document.size_slice_clampTo range
      rw [hdelta]
      show (_ ∧ (b.delete range).1 = b) ∨ (_ ∧ ∃ staleness paint, _ ∧ _ ∧
        (b.delete range).1.document = _ ∧ (b.delete range).1.session = _)
      by_cases hempty : (b.document.slice (range.clampTo b.length)).size = 0
      · left
        refine ⟨by omega, ?_⟩
        have hnone : (b.document.slice (range.clampTo b.length)).isEmpty = true := by simpa using hempty
        rw [Buffer.delete]
        simp only [Document.remove_snd]
        rw [if_pos hnone]
      · right
        obtain ⟨hlt, hdelete⟩ := delete_eq b hempty
        rw [hdelete]
        exact ⟨by omega, _, _, Paint.carried_afterDelete _ hlt,
          ExtentSet.carried_afterDelete _ hlt, rfl, rfl⟩

namespace InStep

/-- **Every operation that is not missed** keeps a buffer in step. -/
theorem op (h : b.InStep g) (htokens : (Lexicon.ofGrammar g).TokensLocal)
    (hlocal : (Lexicon.ofGrammar g).LineLocal) (hstops : (Lexicon.ofGrammar g).StopsUnescaped)
    {o : Op} (hnot : ¬o.Missed b) : (o.apply b).InStep g := by
  obtain ⟨hsession, hlexicon, henabled⟩ := h
  rw [← hlexicon] at htokens hlocal hstops
  -- work on demand leaves the text alone
  have hcall : ∀ s : Session, s.InStep b.document ∧ b.session.Keeps s →
      InStep { b with session := s } g := fun s ⟨hstep, hkeeps⟩ =>
    ⟨hstep, hkeeps.lexicon.trans hlexicon, hkeeps.enabled.trans henabled⟩
  cases o with
  | change c =>
      rcases change_spec (b.document.length_eq ▸ hsession.paint.laid) c with
        ⟨-, hsame⟩ | ⟨hne, st, p, hp, hst, hdoc, hs⟩
      · show (b.change c).InStep g
        rw [hsame]
        exact ⟨hsession, hlexicon, henabled⟩
      · have hstep := hsession.applyEdit htokens hlocal hstops henabled (c.edited b.document) hp hst
          fun hmissed => hnot ⟨hne, hmissed⟩
        have hkeeps := Session.keeps_applyEdit
          { b.session with staleness := st, paint := p } (c.apply b.document) (c.edit b.document)
        show (b.change c).InStep g
        refine ⟨?_, ?_, ?_⟩
        · rw [hdoc, hs]
          exact hstep
        · rw [hs]
          exact hkeeps.lexicon.trans hlexicon
        · rw [hs]
          exact hkeeps.enabled.trans henabled
  | highlight range =>
      obtain ⟨hstep, hkeeps, -⟩ := hsession.highlight htokens hlocal henabled range
      exact hcall _ ⟨hstep, hkeeps⟩
  | request range =>
      exact hcall _ (hsession.call htokens hlocal henabled (.request range))
  | runBackground nanoseconds =>
      exact hcall _ (hsession.runBackground htokens hlocal nanoseconds)
  | matchingBracket pos =>
      exact hcall _ (hsession.call htokens hlocal henabled (.matchingBracket pos _))
  | jumpToBracket pos =>
      exact hcall _ (hsession.call htokens hlocal henabled (.matchingBracket pos none))

/-- A run that misses nothing keeps a buffer in step. -/
theorem run (h : b.InStep g) (htokens : (Lexicon.ofGrammar g).TokensLocal)
    (hlocal : (Lexicon.ofGrammar g).LineLocal) (hstops : (Lexicon.ofGrammar g).StopsUnescaped)
    (ops : List Op) (hnot : ∀ before o, before ++ [o] <+: ops → ¬o.Missed (b.run before)) :
    (b.run ops).InStep g := by
  induction ops generalizing b with
  | nil => exact h
  | cons o rest ih =>
      refine ih (b := o.apply b) (h.op htokens hlocal hstops ?_) ?_
      · exact hnot [] o (by simp)
      · intro before o' hbefore
        exact hnot (o :: before) o' (by simpa using hbefore)

/-- Choosing a grammar starts a buffer over, in step. -/
theorem setGrammar (b : Buffer) (g : Grammar) (henabled : b.session.enabled = true) :
    (b.setGrammar g).InStep g := by
  have hkeeps := Session.keeps_rebuild { b.session with lexicon := .ofGrammar g } b.document
  exact ⟨Session.inStep_rebuild b.document henabled, hkeeps.lexicon, hkeeps.enabled.trans henabled⟩

/-- A buffer in step answers what a new one does. -/
theorem asNew (h : b.InStep g) (htokens : (Lexicon.ofGrammar g).TokensLocal)
    (hlocal : (Lexicon.ofGrammar g).LineLocal) : b.AsNew g := by
  have hanswers : ∀ {b : Buffer}, b.InStep g → ∀ range,
      (b.highlight range).2 = Session.reference (.ofGrammar g) b.document range := by
    intro b h range
    have hlexicon := h.lexicon
    obtain ⟨-, -, hspans⟩ := h.session.highlight (hlexicon ▸ htokens) (hlexicon ▸ hlocal) h.enabled
      range
    rw [← hlexicon]
    exact hspans
  refine ⟨?_, ?_⟩
  · have htable := h.session.paint.table
    rwa [h.lexicon] at htable
  · intro name settings hon range
    have hnew : ((ofText name b.document settings).setGrammar g).InStep g := setGrammar _ g hon
    rw [hanswers h, hanswers hnew]
    rfl

end InStep

/-- A buffer in step that misses a change is not as new any more. -/
theorem Op.Missed.not_asNew {o : Op} (hmissed : o.Missed b) (h : b.InStep g)
    (hlocal : (Lexicon.ofGrammar g).LineLocal) : ¬(o.apply b).AsNew g := by
  obtain ⟨hsession, hlexicon, henabled⟩ := h
  rw [← hlexicon] at hlocal
  cases o with
  | change c =>
      obtain ⟨hne, hmissed⟩ := hmissed
      rcases change_spec (b.document.length_eq ▸ hsession.paint.laid) c with
        ⟨hzero, -⟩ | ⟨-, st, p, -, -, hdoc, hs⟩
      · exact absurd hzero hne
      · rintro ⟨hholds, -⟩
        have hholds : (b.change c).session.analysis.table.Holds (.ofGrammar g)
            (b.change c).document.chars := hholds
        rw [hdoc, hs, ← hlexicon] at hholds
        exact hmissed.not_holds hsession hlocal henabled (c.edited b.document) hholds
  | highlight => exact hmissed.elim
  | request => exact hmissed.elim
  | runBackground => exact hmissed.elim
  | matchingBracket => exact hmissed.elim
  | jumpToBracket => exact hmissed.elim

/-- A buffer that is as new all along misses nothing. -/
theorem InStep.misses_nothing (h : b.InStep g) (htokens : (Lexicon.ofGrammar g).TokensLocal)
    (hlocal : (Lexicon.ofGrammar g).LineLocal) (hstops : (Lexicon.ofGrammar g).StopsUnescaped)
    {ops : List Op} (hall : ∀ before, before <+: ops → (b.run before).AsNew g) :
    ∀ before o, before ++ [o] <+: ops → ¬o.Missed (b.run before) := by
  induction ops generalizing b with
  | nil =>
      intro before o hbefore
      simp at hbefore
  | cons o rest ih =>
      have hfirst : ¬o.Missed b := fun hmissed =>
        hmissed.not_asNew h hlocal (hall [o] (by simp))
      intro before o' hbefore
      cases before with
      | nil =>
          obtain ⟨rfl, -⟩ := List.cons_prefix_cons.1 hbefore
          exact hfirst
      | cons o₁ before =>
          obtain ⟨rfl, hrest⟩ := List.cons_prefix_cons.1 hbefore
          refine ih (h.op htokens hlocal hstops hfirst) ?_ before o' hrest
          intro front hfront
          exact hall (o₁ :: front) (by simpa using hfront)

/-- **An edited buffer is as good as a new one unless it has missed an edit.**  After every stretch
    of a run of operations the table is right and all spans are those of a new buffer, exactly when
    no change of the run is missed. -/
theorem asNew_iff_not_missed (b : Buffer) (henabled : b.session.enabled = true) (g : Grammar)
    (htokens : (Lexicon.ofGrammar g).TokensLocal) (hlocal : (Lexicon.ofGrammar g).LineLocal)
    (hstops : (Lexicon.ofGrammar g).StopsUnescaped) (ops : List Op) :
    (∀ before, before <+: ops → ((b.setGrammar g).run before).AsNew g) ↔
      ∀ before o, before ++ [o] <+: ops → ¬o.Missed ((b.setGrammar g).run before) := by
  have hstart : (b.setGrammar g).InStep g := .setGrammar b g henabled
  constructor
  · intro hall
    exact hstart.misses_nothing htokens hlocal hstops hall
  · intro hnot before hbefore
    refine InStep.asNew (hstart.run htokens hlocal hstops before ?_) htokens hlocal
    intro before' o h
    exact hnot before' o (h.trans hbefore)

/-- A text that loses its backslash after it has been shown. -/
theorem asNew_iff_not_missed_lisp : (ofText "notes" .escapedList {}).session.enabled = true ∧
    (Lexicon.ofGrammar .lisp).TokensLocal ∧ (Lexicon.ofGrammar .lisp).LineLocal ∧
    (Lexicon.ofGrammar .lisp).StopsUnescaped ∧
    ((∀ before, before <+: [Op.highlight ⟨0, 9⟩, .change (.delete ⟨1, 2⟩), .runBackground 0] →
        (((ofText "notes" .escapedList {}).setGrammar .lisp).run before).AsNew .lisp) ↔
      ∀ before o, before ++ [o] <+:
          [Op.highlight ⟨0, 9⟩, .change (.delete ⟨1, 2⟩), .runBackground 0] →
        ¬o.Missed (((ofText "notes" .escapedList {}).setGrammar .lisp).run before)) :=
  ⟨rfl, Lexicon.tokensLocal_lisp, Grammar.lineLocal_lisp, Lexicon.stopsUnescaped_lisp,
    asNew_iff_not_missed _ rfl .lisp Lexicon.tokensLocal_lisp Grammar.lineLocal_lisp
      Lexicon.stopsUnescaped_lisp _⟩

end Buffer

end Highlighter
