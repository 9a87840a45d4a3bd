import Highlighter.Proofs.Actions
import Highlighter.Proofs.UpToDate

/-! # Switching — off is inert, and on is fresh

    A buffer that is off paints nothing, marks nothing and schedules nothing, so there is
    nothing for it to do or to tell (`Inert`).  Its text and its grammar go on changing, and
    its analysis falls behind; all of that is dropped when it is switched on, as it starts
    over then.  Of its past only the text and the grammar set last are left, and a new buffer
    with these has the same to do (`off_inert_on_fresh`).

    Which grammar that is takes the past of a buffer: `InUse` builds it up action by action. -/

namespace Highlighter

/-- The grammar of a session that has not been given one. -/
def Grammar.blank : Grammar := { name := "" }

namespace Session

variable {s : Session} {doc : Document}

/-- A session that is off shows nothing. -/
def Unpainted (s : Session) : Prop := s.enabled = false → s.paint = .empty

/-- A call does nothing to what a session that is off shows. -/
theorem Call.paint_of_off (hoff : s.enabled = false) (doc : Document) (c : Call) :
    (c.apply doc s).paint = s.paint := by
  have hnot : ¬s.enabled = true := by simp [hoff]
  cases c with
  | highlight range => exact congrArg paint (congrArg Prod.fst (if_neg hnot))
  | ensureHighlighted range => exact congrArg paint (if_neg hnot)
  | request range => rfl
  | clearRequested => rfl
  | runBackground nanoseconds => exact congrArg paint (congrArg Prod.fst (if_neg hnot))
  | matchingBracket pos limit =>
      have hnot : ¬(s.enabled && s.lexicon.hasRegions) = true := by simp [hoff]
      exact congrArg paint (congrArg Prod.fst (if_neg hnot))

/-- No call paints while the session is off. -/
theorem Unpainted.call (h : s.Unpainted) (hbounded : s.Bounded doc) (c : Call) :
    (c.apply doc s).Unpainted := by
  intro hoff
  have hbefore : s.enabled = false := (hbounded.call c).keeps.enabled ▸ hoff
  rw [Call.paint_of_off hbefore]
  exact h hbefore

/-- No quantum paints while the session is off. -/
theorem Unpainted.quanta (h : s.Unpainted) (hbounded : s.Bounded doc) (times : List Nat) :
    (s.quanta doc times).Unpainted := by
  induction times generalizing s with
  | nil => exact h
  | cons nanoseconds rest ih =>
      have hwork := hbounded.runBackground nanoseconds
      exact ih (h.call hbounded (.runBackground nanoseconds)) hwork.bounded

/-- Quanta leave the patterns as they are. -/
theorem Bounded.lexicon_quanta (h : s.Bounded doc) (times : List Nat) :
    (s.quanta doc times).lexicon = s.lexicon := by
  induction times generalizing s with
  | nil => rfl
  | cons nanoseconds rest ih =>
      have hwork := h.runBackground nanoseconds
      exact (ih hwork.bounded).trans hwork.keeps.lexicon

theorem paint_rebuild (s : Session) (doc : Document) : (s.rebuild doc).paint = .empty := by
  rw [rebuild_eq]
  split <;> rfl

theorem enabled_setEnabled (s : Session) (doc : Document) (on : Bool) :
    (s.setEnabled doc on).enabled = on := by
  rw [setEnabled]
  split
  next hsame => exact hsame.symm
  next =>
    cases on with
    | true => exact (keeps_rebuild { s with enabled := true } doc).enabled
    | false => rfl

/-- A session that is switched off shows nothing. -/
theorem Unpainted.setEnabled (h : s.Unpainted) (doc : Document) (on : Bool) :
    (s.setEnabled doc on).Unpainted := by
  intro hoff
  rw [Session.setEnabled] at hoff ⊢
  split at hoff
  · rw [if_pos (by assumption)]
    exact h hoff
  · rw [if_neg (by assumption)]
    cases on with
    | true => exact paint_rebuild _ doc
    | false => rfl

/-- All that work is done from is the same: the patterns, the table and what is set aside, what is
    painted, what is dirty, and whether work is scheduled. -/
structure SameWork (s t : Session) : Prop where
  lexicon  : s.lexicon = t.lexicon
  table    : s.analysis.table = t.analysis.table
  saved    : s.analysis.saved = t.analysis.saved
  paint    : s.paint = t.paint
  dirty    : s.staleness.dirty = t.staleness.dirty
  armed    : s.pacer.armed = t.pacer.armed

/-- **Sessions that start over while they are on** have the same to do, if they have the same
    patterns. -/
theorem sameWork_rebuild {t : Session} (hs : s.enabled = true) (ht : t.enabled = true)
    (hlexicon : s.lexicon = t.lexicon) (doc : Document) :
    SameWork (s.rebuild doc) (t.rebuild doc) := by
  rw [rebuild_eq, rebuild_eq, if_pos hs, if_pos ht]
  exact ⟨hlexicon, rfl, rfl, rfl, rfl, rfl⟩

end Session

namespace Buffer

variable {b b' : Buffer} {g : Grammar} {a : Action} {as : List Action}

/-! ## The grammar in use -/

namespace Action

/-- The grammar that an action sets, if any. -/
def grammar? (b : Buffer) : Action → Option Grammar
  | setGrammar g => some g
  | setLanguage catalog name => (catalog.require name).toOption
  | detectLanguage catalog => b.filename.bind catalog.detect? |>.bind catalog.get?
  | _ => none

end Action

/-- A buffer after some actions, none when one of them does not end. -/
def performAll? (b : Buffer) : List Action → Option Buffer
  | [] => some b
  | a :: as => (a.perform? b).bind (·.performAll? as)

/-- The grammar in use after some actions, with `g` in use before them. -/
def grammarAfter (g : Grammar) (b : Buffer) : List Action → Grammar
  | [] => g
  | a :: as =>
    match a.perform? b with
    | some b' => grammarAfter ((a.grammar? b).getD g) b' as
    | none => g

/-- Actions lead to the buffer, and of the grammars set on the way this one was the last; the blank
    one, if none was set. -/
inductive InUse : Buffer → Grammar → Prop
  | ofText (name : String) (text : Document) (settings : Settings) :
      InUse (ofText name text settings) .blank
  | ofFile (path : String) (contents : Document) (settings : Settings) :
      InUse (ofFile path contents settings) .blank
  | perform {b b' : Buffer} {g : Grammar} {a : Action} (h : InUse b g)
      (hb' : a.perform? b = some b') : InUse b' ((a.grammar? b).getD g)
  | collect {b : Buffer} {g : Grammar} (h : InUse b g) :
      InUse { b with session := b.session.collect.1 } g

/-- Quanta lead to buffers that can be reached. -/
theorem Reachable.quanta (h : b.Reachable) (times : List Nat) :
    Reachable { b with session := b.session.quanta b.document times } := by
  induction times generalizing b with
  | nil => exact h
  | cons nanoseconds rest ih => exact ih (h.call (.runBackground nanoseconds))

/-- **Every action** leads from a reachable buffer to another one. -/
theorem Reachable.perform (h : b.Reachable) (hb' : a.perform? b = some b') : b'.Reachable := by
  cases a with
  | op o =>
      obtain rfl := Option.some.inj hb'
      exact h.op o
  | call c =>
      obtain rfl := Option.some.inj hb'
      exact h.call c
  | quanta times =>
      obtain rfl := Option.some.inj hb'
      exact h.quanta times
  | runUntilIdle nanoseconds =>
      obtain ⟨⟨b'', n⟩, hrun, rfl⟩ := Option.map_eq_some_iff.1 hb'
      exact h.runUntilIdle hrun
  | setGrammar g =>
      obtain rfl := Option.some.inj hb'
      exact h.setGrammar g
  | setLanguage catalog name =>
      obtain rfl := Option.some.inj hb'
      cases hfound : b.setLanguage catalog name with
      | error failure => exact h
      | ok b'' => exact h.setLanguage hfound
  | detectLanguage catalog =>
      obtain rfl := Option.some.inj hb'
      exact h.detectLanguage catalog
  | setHighlighting on =>
      obtain rfl := Option.some.inj hb'
      exact h.setHighlighting on
  | setModified on =>
      obtain rfl := Option.some.inj hb'
      exact h.setModified on
  | save =>
      obtain rfl := Option.some.inj hb'
      cases hsaved : b.save with
      | error failure => exact h
      | ok saved => exact @Reachable.save _ _ saved.2.1 saved.2.2 h hsaved
  | connect =>
      obtain rfl := Option.some.inj hb'
      exact h.connect
  | disconnect listener =>
      obtain rfl := Option.some.inj hb'
      exact h.disconnect listener

theorem InUse.reachable (h : b.InUse g) : b.Reachable := by
  induction h with
  | ofText name text settings => exact .ofText name text settings
  | ofFile path contents settings => exact .ofFile path contents settings
  | perform _ hb' ih => exact ih.perform hb'
  | collect _ ih => exact ih.collect

/-- Behind every action there is a grammar in use. -/
theorem InUse.exists_perform (h : ∃ g, b.InUse g) (hb' : a.perform? b = some b') :
    ∃ g, b'.InUse g := by
  obtain ⟨g, hg⟩ := h
  exact ⟨_, hg.perform hb'⟩

/-- **Every reachable buffer** has a grammar in use. -/
theorem Reachable.exists_inUse (h : b.Reachable) : ∃ g, b.InUse g := by
  induction h with
  | ofText name text settings => exact ⟨_, .ofText name text settings⟩
  | ofFile path contents settings => exact ⟨_, .ofFile path contents settings⟩
  | op _ o ih => exact InUse.exists_perform (a := .op o) ih rfl
  | call _ c ih => exact InUse.exists_perform (a := .call c) ih rfl
  | @runUntilIdle b b' nanoseconds quanta _ hidle ih =>
      have hrun : (Action.runUntilIdle nanoseconds).perform? b = some b' := by
        rw [Action.perform?, hidle]
        rfl
      exact InUse.exists_perform ih hrun
  | setGrammar _ g' ih => exact InUse.exists_perform (a := .setGrammar g') ih rfl
  | @setLanguage b b' catalog name _ hfound ih =>
      have hrun : (Action.setLanguage catalog name).perform? b = some b' := by
        rw [Action.perform?, hfound]
        rfl
      exact InUse.exists_perform ih hrun
  | detectLanguage _ catalog ih => exact InUse.exists_perform (a := .detectLanguage catalog) ih rfl
  | setHighlighting _ on ih => exact InUse.exists_perform (a := .setHighlighting on) ih rfl
  | setModified _ on ih => exact InUse.exists_perform (a := .setModified on) ih rfl
  | @save b b' path contents _ hsaved ih =>
      have hrun : Action.save.perform? b = some b' := by
        rw [Action.perform?, hsaved]
        rfl
      exact InUse.exists_perform ih hrun
  | connect _ ih => exact InUse.exists_perform (a := .connect) ih rfl
  | disconnect _ listener ih => exact InUse.exists_perform (a := .disconnect listener) ih rfl
  | collect _ ih =>
      obtain ⟨g, hg⟩ := ih
      exact ⟨_, hg.collect⟩

/-- Behind some actions the last grammar that they set is in use. -/
theorem InUse.performAll (h : b.InUse g) (hb' : b.performAll? as = some b') :
    b'.InUse (grammarAfter g b as) := by
  induction as generalizing b g with
  | nil =>
      obtain rfl := Option.some.inj hb'
      exact h
  | cons a as ih =>
      obtain ⟨b₁, hfirst, hrest⟩ := Option.bind_eq_some_iff.1 hb'
      rw [grammarAfter, hfirst]
      exact ih (h.perform hfirst) hrest

/-! ## What actions do to a session -/

/-- What an action does to the session of a buffer, by the grammar that it sets. -/
inductive Action.Does (b b' : Buffer) : Option Grammar → Prop
  | edits (c : Change) (h : b'.session = (b.change c).session) : Does b b' none
  | calls (c : Session.Call) (h : b'.session = c.apply b.document b.session) : Does b b' none
  | runs (times : List Nat) (h : b'.session = b.session.quanta b.document times) : Does b b' none
  | sets (g : Grammar) (h : b'.session = (b.setGrammar g).session) : Does b b' (some g)
  | switches (on : Bool) (h : b'.session = (b.setHighlighting on).session) : Does b b' none
  /-- At most the listeners are others. -/
  | listens (listeners : List Nat) (nextListener : Nat)
      (h : b'.session = { b.session with listeners, nextListener }) : Does b b' none

/-- Every action sets a grammar or keeps the patterns. -/
theorem Action.perform_does (hb' : a.perform? b = some b') : Does b b' (a.grammar? b) := by
  cases a with
  | op o =>
      obtain rfl := Option.some.inj hb'
      cases o with
      | change c => exact .edits c rfl
      | highlight range => exact .calls (.highlight range) rfl
      | request range => exact .calls (.request range) rfl
      | runBackground nanoseconds => exact .calls (.runBackground nanoseconds) rfl
      | matchingBracket pos =>
          exact .calls (.matchingBracket pos (some b.session.settings.bracketReach)) rfl
      | jumpToBracket pos => exact .calls (.matchingBracket pos none) rfl
  | call c =>
      obtain rfl := Option.some.inj hb'
      exact .calls c rfl
  | quanta times =>
      obtain rfl := Option.some.inj hb'
      exact .runs times rfl
  | runUntilIdle nanoseconds =>
      obtain ⟨⟨b'', n⟩, hrun, rfl⟩ := Option.map_eq_some_iff.1 hb'
      obtain ⟨s, hdrain, rfl⟩ := runUntilIdle_eq_some hrun
      exact .runs (List.replicate n nanoseconds) (Session.drain_eq_quanta hdrain)
  | setGrammar g =>
      obtain rfl := Option.some.inj hb'
      exact .sets g rfl
  | setLanguage catalog name =>
      obtain rfl := Option.some.inj hb'
      rw [grammar?, Buffer.setLanguage]
      cases catalog.require name with
      | error failure => exact .listens _ _ rfl
      | ok g => exact .sets g rfl
  | detectLanguage catalog =>
      obtain rfl := Option.some.inj hb'
      rw [grammar?, Buffer.detectLanguage]
      cases b.filename.bind catalog.detect? |>.bind catalog.get? with
      | none => exact .listens _ _ rfl
      | some g => exact .sets g rfl
  | setHighlighting on =>
      obtain rfl := Option.some.inj hb'
      exact .switches on rfl
  | setModified on =>
      obtain rfl := Option.some.inj hb'
      exact .listens _ _ rfl
  | save =>
      obtain rfl := Option.some.inj hb'
      rw [Buffer.save]
      cases b.filename with
      | none => exact .listens _ _ rfl
      | some path => exact .listens _ _ rfl
  | connect =>
      obtain rfl := Option.some.inj hb'
      exact .listens _ _ rfl
  | disconnect listener =>
      obtain rfl := Option.some.inj hb'
      exact .listens _ _ rfl

/-- Switching leaves the patterns as they are. -/
theorem lexicon_setHighlighting (b : Buffer) (on : Bool) :
    (b.setHighlighting on).session.lexicon = b.session.lexicon := by
  show (b.session.setEnabled b.document on).lexicon = b.session.lexicon
  rw [Session.setEnabled]
  split
  · rfl
  · cases on with
    | true => exact (Session.keeps_rebuild _ b.document).lexicon
    | false => rfl

/-- The patterns behind an action are those of the grammar that it sets, else those before it. -/
theorem Tended.lexicon_perform (h : b.Tended) (hb' : a.perform? b = some b') :
    b'.session.lexicon = ((a.grammar? b).map Lexicon.ofGrammar).getD b.session.lexicon := by
  have hdoes := Action.perform_does hb'
  generalize a.grammar? b = set at hdoes ⊢
  cases hdoes with
  | edits c heq =>
      rw [heq]
      rcases change_spec h.bounded.laid c with ⟨-, hsame⟩ | ⟨-, st, p, -, -, -, hs⟩
      · rw [hsame]
        rfl
      · rw [hs]
        exact (Session.keeps_applyEdit _ _ _).lexicon
  | calls c heq =>
      rw [heq]
      exact (h.bounded.call c).keeps.lexicon
  | runs times heq =>
      rw [heq]
      exact h.bounded.lexicon_quanta times
  | sets g heq =>
      rw [heq]
      exact (Session.keeps_rebuild { b.session with lexicon := .ofGrammar g } b.document).lexicon
  | switches on heq =>
      rw [heq]
      exact lexicon_setHighlighting b on
  | listens listeners nextListener heq => rw [heq]; rfl

/-- **The patterns are those of the grammar in use.** -/
theorem InUse.lexicon (h : b.InUse g) : b.session.lexicon = .ofGrammar g := by
  induction h with
  | ofText => rfl
  | ofFile => rfl
  | @perform b b' g a h hb' ih =>
      rw [h.reachable.tended.lexicon_perform hb']
      cases a.grammar? b with
      | none => exact ih
      | some g' => rfl
  | collect _ ih => exact ih

/-! ## Off -/

/-- An edit of a buffer that is off only moves what is there along with the text. -/
theorem change_of_off (hoff : b.session.enabled = false) (c : Change) :
    ∃ staleness paint, (b.change c).session = { b.session with staleness, paint } ∧
      (b.session.paint = .empty → paint = .empty) := by
  have hnot : ¬b.session.enabled = true := by simp [hoff]
  have hsame : ∃ staleness paint, b.session = { b.session with staleness, paint } ∧
      (b.session.paint = .empty → paint = .empty) :=
    ⟨_, _, rfl, id⟩
  cases c with
  | insert pos text =>
      show ∃ staleness paint, (b.insert pos text).session = _ ∧ _
      by_cases hempty : text.size = 0
      · rw [Buffer.insert, if_pos (by simpa using hempty)]
        exact hsame
      · rw [insert_eq b pos hempty, Session.applyEdit, if_neg hnot]
        refine ⟨_, _, rfl, ?_⟩
        intro hpaint
        rw [hpaint]
        rfl
  | delete range =>
      show ∃ staleness paint, (b.delete range).1.session = _ ∧ _
      by_cases hempty : (b.document.slice (range.clampTo b.length)).size = 0
      · rw [Buffer.delete]
        simp only [Document.remove_snd]
        rw [if_pos (by simpa using hempty)]
        exact hsame
      · obtain ⟨hlt, heq⟩ := delete_eq b hempty
        rw [heq, Session.applyEdit, if_neg hnot]
        refine ⟨_, _, rfl, ?_⟩
        intro hpaint
        rw [hpaint, Paint.afterDelete, if_neg (Nat.not_le.2 hlt)]
        rfl

/-- **No action** paints a buffer that is off. -/
theorem Tended.unpainted_perform (h : b.Tended) (hpaint : b.session.Unpainted)
    (hb' : a.perform? b = some b') : b'.session.Unpainted := by
  have hdoes := Action.perform_does hb'
  generalize a.grammar? b = set at hdoes
  cases hdoes with
  | edits c heq =>
      rw [heq]
      intro hoff
      rcases change_spec h.bounded.laid c with ⟨-, hsame⟩ | ⟨-, st, p, -, -, -, hs⟩
      · rw [hsame] at hoff ⊢
        exact hpaint hoff
      · -- off behind the edit means off before it, where an edit takes another path
        rw [hs, (Session.keeps_applyEdit _ _ _).enabled] at hoff
        obtain ⟨staleness, paint, hstill, hempty⟩ := change_of_off hoff c
        rw [hstill]
        exact hempty (hpaint hoff)
  | calls c heq =>
      rw [heq]
      exact hpaint.call h.bounded c
  | runs times heq =>
      rw [heq]
      exact hpaint.quanta h.bounded times
  | sets g heq =>
      rw [heq]
      intro _
      exact Session.paint_rebuild _ b.document
  | switches on heq =>
      rw [heq]
      exact hpaint.setEnabled b.document on
  | listens listeners nextListener heq =>
      rw [heq]
      exact hpaint

/-- A buffer that can be reached shows nothing while it is off. -/
theorem InUse.unpainted (h : b.InUse g) : b.session.Unpainted := by
  induction h with
  | ofText => exact fun _ => rfl
  | ofFile => exact fun _ => rfl
  | perform h hb' ih => exact h.reachable.tended.unpainted_perform ih hb'
  | collect _ ih => exact ih

/-- There is nothing to show, nothing to do, and nothing to tell of edits. -/
structure Inert (b : Buffer) : Prop where
  paint   : b.session.paint = .empty
  clean   : b.session.staleness.dirty = ∅
  unarmed : b.session.pacer.armed = false
  idle    : b.session.hasPendingWork = false
  blank   : ∀ range, b.highlight range = (b, [])
  silent  : ∀ c, (b.change c).session.mail = b.session.mail

/-- A buffer that can be reached is inert while it is off. -/
theorem Reachable.inert (h : b.Reachable) (hoff : b.session.enabled = false) : b.Inert := by
  obtain ⟨g, hg⟩ := h.exists_inUse
  constructor
  · exact hg.unpainted hoff
  · have hupto := h.tended.bounded.upto
    exact ExtentSet.Canonical.eq_of_mem_iff hupto.canonical ExtentSet.canonical_empty fun x =>
      ⟨fun hx => absurd hx (h.attended.off hoff x), fun hx => absurd hx ExtentSet.not_mem_empty⟩
  · cases harmed : b.session.pacer.armed with
    | false => rfl
    | true => exact absurd (hoff.symm.trans (h.tended.on harmed)) Bool.false_ne_true
  · rw [Session.hasPendingWork, hoff, Bool.false_and]
  · intro range
    rw [Buffer.highlight, Session.highlight_of_disabled hoff]
  · intro c
    obtain ⟨staleness, paint, hstill, -⟩ := change_of_off hoff c
    rw [hstill]

/-! ## On again -/

/-- **Off is inert, and on is fresh.**  A buffer that is off has nothing to show and nothing to do,
    and tells no edits.  Whatever has been done to it when it is switched on, it then has the same
    to do as a new buffer that is on, with its text and the grammar that was set last. -/
theorem off_inert_on_fresh (h : b.Reachable) (hoff : b.session.enabled = false) :
    b.Inert ∧ (∃ g, b.InUse g) ∧
      ∀ g, b.InUse g → ∀ as b', b.performAll? as = some b' → b'.session.enabled = false →
        ∀ (name : String) (settings : Settings), settings.highlight = true →
          Session.SameWork (b'.setHighlighting true).session
            ((ofText name b'.document settings).setGrammar (grammarAfter g b as)).session := by
  refine ⟨h.inert hoff, h.exists_inUse, ?_⟩
  intro g hg as b' hb' hoff' name settings hon
  -- starting over takes nothing of the past but the patterns, and these the grammar decides
  have hlexicon := (hg.performAll hb').lexicon
  have hstarts : (b'.setHighlighting true).session =
      Session.rebuild { b'.session with enabled := true } b'.document := by
    show b'.session.setEnabled b'.document true = _
    rw [Session.setEnabled, if_neg (by rw [hoff']; decide), if_pos rfl]
  rw [hstarts]
  exact Session.sameWork_rebuild rfl hon hlexicon b'.document

/-- A buffer that is switched off, and then gets another grammar and more text. -/
theorem off_inert_on_fresh_twoLines :
    Reachable (twoLines.setHighlighting false) ∧
      (twoLines.setHighlighting false).session.enabled = false ∧
      Inert (twoLines.setHighlighting false) ∧
      ∃ b', (twoLines.setHighlighting false).performAll?
          [.setGrammar .blank, .op (.change (.insert 1 #['x']))] = some b' ∧
        b'.session.enabled = false ∧
        Session.SameWork (b'.setHighlighting true).session
          ((ofText "notes" b'.document {}).setGrammar .blank).session := by
  have hreachable := reachable_twoLines.setHighlighting false
  have hoff := Session.enabled_setEnabled twoLines.session twoLines.document false
  obtain ⟨hinert, ⟨g, hg⟩, hfresh⟩ := off_inert_on_fresh hreachable hoff
  have hblank : ((twoLines.setHighlighting false).setGrammar .blank).session.enabled = false :=
    (Session.keeps_rebuild _ _).enabled.trans hoff
  obtain ⟨staleness, paint, hsession, -⟩ := change_of_off hblank (.insert 1 #['x'])
  have hoff' : (((twoLines.setHighlighting false).setGrammar .blank).change
      (.insert 1 #['x'])).session.enabled = false := by
    rw [hsession]
    exact hblank
  exact ⟨hreachable, hoff, hinert, _, rfl, hoff',
    hfresh g hg [.setGrammar .blank, .op (.change (.insert 1 #['x']))] _ rfl hoff' "notes" {} rfl⟩

end Buffer

end Highlighter
