import Highlighter.Proofs.Rebuild
import Highlighter.Proofs.Rendered
import Highlighter.Proofs.TableShape

/-! # Reachable buffers — what any operations keep

    Whatever the patterns match, a session stays inside its text: its frontiers, its stale
    offsets and its paint (`Session.Bounded`).  Work on demand brings the table nearer to
    its end, and takes it off the schedule only there (`Session.Works`).  An edit that cuts
    the table back puts it on the schedule again, and so does starting over.

    So in every buffer that operations lead to, a table that is not complete is scheduled,
    unless no grammar has been set (`Buffer.Tended`).  And all spans that a buffer answers
    lie in order inside the range asked for, as the paint does. -/

namespace Highlighter

/-- A table with its frontier inside the text does not reach past it. -/
theorem Analysis.Within.reach_le {a : Analysis} {n : Nat} (h : a.Within n) :
    a.table.reach n ≤ n := by
  cases hf : a.table.frontier with
  | none => exact Nat.le_of_eq (BoundaryTable.reach_of_none hf n)
  | some f =>
      rw [BoundaryTable.reach_of_some hf]
      exact h.table f hf

/-- A table that is fresh or complete has its frontier inside any text. -/
theorem Analysis.Quiet.within {a : Analysis} (h : a.Quiet) (n : Nat) : a.Within n := by
  rcases h with rfl | rfl
  · exact Analysis.within_fresh n
  · exact Analysis.within_done _ n

/-- To record a batch neither arms nor disarms. -/
theorem Pacer.record_armed (p : Pacer) (processed nanoseconds : Nat) :
    (p.record processed nanoseconds).armed = p.armed := by
  rw [record]
  split <;> rfl

namespace Session

variable {s s' s'' : Session} {doc : Document}

/-! ## Inside the text -/

/-- Frontiers, stale offsets and paint lie inside the text.  A session that is off lets its
    analysis fall behind, as it starts over when it is switched on.  Without regions there is
    nothing to analyze. -/
structure Bounded (s : Session) (doc : Document) : Prop where
  analysis : s.enabled = true → s.analysis.Within doc.length
  quiet    : s.lexicon.hasRegions = false → s.analysis.Quiet
  upto     : s.staleness.dirty.Upto doc.length
  laid     : Laid 0 s.paint.spans doc.length

/-- All that work on demand does to a session. -/
structure Works (doc : Document) (s s' : Session) : Prop where
  keeps    : s.Keeps s'
  bounded  : s'.Bounded doc
  nearer   : s'.analysis.callsLeft doc ≤ s.analysis.callsLeft doc
  complete : s.analysis.table.isComplete = true → s'.analysis.table.isComplete = true
  armed    : s'.pacer.armed = true → s.pacer.armed = true
  schedule : s'.analysis.table.isComplete = false → s'.pacer.armed = s.pacer.armed

/-- A table that work leaves open has been open before. -/
theorem Works.incomplete (h : Works doc s s') (hleft : s'.analysis.table.isComplete = false) :
    s.analysis.table.isComplete = false := by
  cases hdone : s.analysis.table.isComplete with
  | false => rfl
  | true => exact (h.complete hdone).symm.trans hleft

/-- Works on demand one after the other are works on demand. -/
theorem Works.trans (h : Works doc s s') (h' : Works doc s' s'') : Works doc s s'' where
  keeps := h.keeps.trans h'.keeps
  bounded := h'.bounded
  nearer := Nat.le_trans h'.nearer h.nearer
  complete hdone := h'.complete (h.complete hdone)
  armed harmed := h.armed (h'.armed harmed)
  schedule hleft := (h'.schedule hleft).trans (h.schedule (h'.incomplete hleft))

/-- What leaves the analysis and the schedule alone is work on demand, as long as it stays inside
    the text. -/
theorem Bounded.works (h : s'.Bounded doc) (hkeeps : s.Keeps s')
    (hanalysis : s'.analysis = s.analysis) (hpacer : s'.pacer.armed = s.pacer.armed) :
    Works doc s s' where
  keeps := hkeeps
  bounded := h
  nearer := hanalysis ▸ Nat.le_refl _
  complete hdone := hanalysis ▸ hdone
  armed harmed := hpacer ▸ harmed
  schedule _ := hpacer

theorem Bounded.refl (h : s.Bounded doc) : Works doc s s := h.works (.refl s) rfl rfl

/-! ## Work on demand -/

namespace Bounded

/-- To mark a stretch as analyzed is work on demand. -/
theorem analyzed (h : s.Bounded doc) (range : Extent) : Works doc s (s.analyzed doc range) := by
  obtain ⟨hkeeps, hsame⟩ := keeps_analyzed s doc range
  rw [Session.analyzed] at hkeeps hsame ⊢
  split at hkeeps
  · rw [if_pos (by assumption)]
    exact h.refl
  · rw [if_neg (by assumption)] at hsame ⊢
    exact works ⟨h.analysis, h.quiet, h.upto.insert (doc.snapToLines_stop_le range), h.laid⟩ hkeeps
      hsame rfl

/-- Only a complete table has no batch left. -/
theorem frontier_eq_none (h : s.Bounded doc) (henabled : s.enabled = true)
    (hbuild : s.analysis.build s.lexicon doc s.pacer.batch = none) :
    s.analysis.table.frontier = none := by
  cases hf : s.analysis.table.frontier with
  | none => rfl
  | some f =>
      obtain ⟨a, report, hsome, -⟩ := Analysis.build_grows s.lexicon doc s.analysis s.pacer.batch hf
        ((h.analysis henabled).table f hf)
      exact absurd (hbuild.symm.trans hsome).symm (Option.some_ne_none _)

/-- A batch makes progress. -/
theorem batch (h : s.Bounded doc) (henabled : s.enabled = true) {a' : Analysis}
    {report : BuildReport} (hbuild : s.analysis.build s.lexicon doc s.pacer.batch = some (a', report))
    {pacer : Pacer} (hpacer : pacer.armed = s.pacer.armed) :
    Works doc s { s with analysis := a', pacer } ∧ s.analysis.Advances a' report ∧
      a'.callsLeft doc < s.analysis.callsLeft doc := by
  have hwithin := h.analysis henabled
  cases hf : s.analysis.table.frontier with
  | none =>
      rw [Analysis.build_of_none hf] at hbuild
      exact absurd hbuild.symm (Option.some_ne_none _)
  | some f =>
      have hle := hwithin.table f hf
      obtain ⟨a₁, report₁, hbuild₁, hgrows⟩ :=
        Analysis.build_grows s.lexicon doc s.analysis s.pacer.batch hf hle
      obtain ⟨rfl, rfl⟩ := Prod.mk.inj (Option.some.inj (hbuild.symm.trans hbuild₁))
      have hless := (hgrows.advances hf).callsLeft_lt hf hle
      have hopen : s.analysis.table.isComplete = true → False := by
        rw [BoundaryTable.isComplete, hf]
        exact Bool.false_ne_true
      have hbounded : Bounded { s with analysis := a', pacer } doc :=
        ⟨fun _ => hgrows.within hwithin, fun hregions => (h.quiet hregions).build hregions hbuild,
          h.upto, h.laid⟩
      exact ⟨⟨⟨rfl, rfl, rfl⟩, hbounded, Nat.le_of_lt hless, fun hdone => (hopen hdone).elim,
        fun harmed => hpacer ▸ harmed, fun _ => hpacer⟩, hgrows.advances hf, hless⟩

theorem analyzeWithin (h : s.Bounded doc) (henabled : s.enabled = true) (upto rounds : Nat) :
    Works doc s (analyzeWithin doc upto rounds s) := by
  induction rounds generalizing s with
  | zero => exact h.refl
  | succ rounds ih =>
      rw [Session.analyzeWithin]
      split
      · rw [analyzeBatch]
        cases hbuild : s.analysis.build s.lexicon doc s.pacer.batch with
        | none => exact h.refl
        | some built =>
            obtain ⟨a', report⟩ := built
            obtain ⟨hbatch, -, -⟩ := h.batch henabled hbuild rfl
            have hmarked := hbatch.trans (hbatch.bounded.analyzed report.range)
            exact hmarked.trans (ih hmarked.bounded (hmarked.keeps.enabled.trans henabled))
      · exact h.refl

theorem ensureAnalyzed (h : s.Bounded doc) (henabled : s.enabled = true) (upto : Nat) :
    Works doc s (s.ensureAnalyzed doc upto) := h.analyzeWithin henabled upto _

/-- Rendering one part paints inside the text. -/
theorem renderPart (h : s.Bounded doc) (henabled : s.enabled = true) {part : Extent}
    {d : ExtentSet} {p : Paint} (hlt : part.start < part.stop) (hpart : part.stop ≤ doc.length)
    (hinside : d.Upto doc.length ∧ Laid 0 p.spans doc.length) :
    let pass := Session.renderPart s.lexicon s.analysis.table doc p part
    ((d.erase part).erase pass.2).Upto doc.length ∧ Laid 0 pass.1.spans doc.length := by
  obtain ⟨hupto, hlaid⟩ := hinside
  have hreach := (h.analysis henabled).reach_le
  obtain ⟨-, -, hfar⟩ := Replacement.window_ofPart s.lexicon s.analysis.table doc hlt
  have hspans := Replacement.laid_ofPart s.lexicon s.analysis.table doc hlt
  rw [Replacement.renderPart_eq]
  exact ⟨hupto.erase.erase,
    laid_replace hlaid (hfar doc.length hreach hpart) (by rwa [hspans.filter_eq])⟩

/-- Rendering paints inside the text. -/
theorem renderStale (h : s.Bounded doc) (henabled : s.enabled = true) (range : Extent) :
    Works doc s (s.renderStale doc range) := by
  obtain ⟨hupto, hlaid⟩ := Staleness.refresh_keeps (t := s.staleness) (s := s.paint)
    (motive := fun d p => d.Upto doc.length ∧ Laid 0 p.spans doc.length)
    (fun _ hf => h.upto.stop_le hf)
    (fun part d p hlt _ _ hpart hd => h.renderPart henabled hlt hpart hd) ⟨h.upto, h.laid⟩
  exact works ⟨h.analysis, h.quiet, hupto, hlaid⟩ ⟨rfl, rfl, rfl⟩ rfl rfl

theorem ensureHighlighted (h : s.Bounded doc) (range : Extent) :
    Works doc s (s.ensureHighlighted doc range) := by
  rw [Session.ensureHighlighted]
  split
  · rename_i henabled
    have hensured := h.ensureAnalyzed henabled range.stop
    exact hensured.trans
      (hensured.bounded.renderStale (hensured.keeps.enabled.trans henabled) range)
  · exact h.refl

theorem highlight (h : s.Bounded doc) (range : Extent) :
    Works doc s (s.highlight doc range).1 := by
  rw [Session.highlight]
  split
  · exact h.ensureHighlighted _
  · exact h.refl

theorem analyzeTimed (h : s.Bounded doc) (henabled : s.enabled = true) (nanoseconds : Nat) :
    Works doc s (s.analyzeTimed doc nanoseconds) := by
  rw [Session.analyzeTimed, analyzeBatch]
  cases hbuild : s.analysis.build s.lexicon doc s.pacer.batch with
  | none => exact h.refl
  | some built =>
      obtain ⟨a', report⟩ := built
      obtain ⟨hbatch, -, -⟩ := h.batch henabled hbuild
        (s.pacer.record_armed report.processed nanoseconds)
      exact hbatch.trans (hbatch.bounded.analyzed report.range)

/-- Only a complete table is taken off the schedule. -/
theorem retire (h : s.Bounded doc) : Works doc s s.retire := by
  rw [Session.retire]
  split
  · rename_i hdone
    refine ⟨⟨rfl, rfl, rfl⟩, ⟨h.analysis, h.quiet, h.upto, h.laid⟩, Nat.le_refl _, id,
      fun harmed => absurd harmed Bool.false_ne_true, fun hleft => ?_⟩
    exact absurd (hdone.symm.trans hleft) (by decide)
  · exact h.refl

theorem analyzeScheduled (h : s.Bounded doc) (henabled : s.enabled = true) (nanoseconds : Nat) :
    Works doc s (s.analyzeScheduled doc nanoseconds) := by
  rw [analyzeScheduled_eq]
  split
  · have hbatch := h.analyzeTimed henabled nanoseconds
    exact hbatch.trans hbatch.bounded.retire
  · exact h.refl

theorem renderUpTo (h : s.Bounded doc) (henabled : s.enabled = true) (reach : Nat)
    (range : Extent) : Works doc s (s.renderUpTo doc reach range) := by
  rw [Session.renderUpTo]
  split
  · exact h.renderStale henabled _
  · exact h.refl

theorem renderRequested (h : s.Bounded doc) (henabled : s.enabled = true) :
    Works doc s (s.renderRequested doc) := by
  rw [renderRequested_eq]
  refine List.foldlRecOn (motive := Works doc s) _ _ h.refl ?_
  intro t hworks range _
  exact hworks.trans (hworks.bounded.renderUpTo (hworks.keeps.enabled.trans henabled) _ range)

/-- A quantum is work on demand. -/
theorem runBackground (h : s.Bounded doc) (nanoseconds : Nat) :
    Works doc s (s.runBackground doc nanoseconds).1 := by
  rw [Session.runBackground]
  split
  · rename_i henabled
    have hanalyzed := h.analyzeScheduled henabled nanoseconds
    exact hanalyzed.trans
      (hanalyzed.bounded.renderRequested (hanalyzed.keeps.enabled.trans henabled))
  · exact h.refl

theorem matchingBracket (h : s.Bounded doc) (pos : Nat) (limit : Option Nat) :
    Works doc s (s.matchingBracket doc pos limit).1 := by
  rw [Session.matchingBracket]
  split
  · rename_i hon
    exact h.ensureAnalyzed (Bool.and_eq_true_iff.1 hon).1 _
  · exact h.refl

/-- **Every call** is work on demand. -/
theorem call (h : s.Bounded doc) (c : Call) : Works doc s (c.apply doc s) := by
  cases c with
  | highlight range => exact h.highlight range
  | ensureHighlighted range => exact h.ensureHighlighted range
  | request range => exact works ⟨h.analysis, h.quiet, h.upto, h.laid⟩ ⟨rfl, rfl, rfl⟩ rfl rfl
  | clearRequested => exact works ⟨h.analysis, h.quiet, h.upto, h.laid⟩ ⟨rfl, rfl, rfl⟩ rfl rfl
  | runBackground nanoseconds => exact h.runBackground nanoseconds
  | matchingBracket pos limit => exact h.matchingBracket pos limit

/-- To drain is work on demand. -/
theorem drain (h : s.Bounded doc) {nanoseconds quanta n : Nat}
    (hdrain : drain doc nanoseconds quanta s = some (s', n)) : Works doc s s' := by
  induction quanta generalizing s n with
  | zero =>
      rw [Session.drain] at hdrain
      obtain ⟨-, hdrain⟩ := Option.ite_none_left_eq_some.1 hdrain
      obtain ⟨rfl, -⟩ := Prod.mk.inj (Option.some.inj hdrain)
      exact h.refl
  | succ quanta ih =>
      rw [Session.drain] at hdrain
      split at hdrain
      · have hquantum := h.runBackground nanoseconds
        generalize s.runBackground doc nanoseconds = quantum at hdrain hquantum
        obtain ⟨t, more⟩ := quantum
        cases more with
        | true =>
            obtain ⟨⟨t', n'⟩, hrest, heq⟩ := Option.map_eq_some_iff.1 hdrain
            obtain ⟨rfl, -⟩ := Prod.mk.inj heq
            exact hquantum.trans (ih hquantum.bounded hrest)
        | false =>
            obtain ⟨rfl, -⟩ := Prod.mk.inj (Option.some.inj hdrain)
            exact hquantum
      · obtain ⟨rfl, -⟩ := Prod.mk.inj (Option.some.inj hdrain)
        exact h.refl

end Bounded

/-! ## Edits, and starting over -/

/-- A table that is not complete is on the schedule, while the session is on. -/
def Scheduled (s : Session) : Prop :=
  s.enabled = true → s.analysis.table.isComplete = false → s.pacer.armed = true

/-- Work on demand keeps what is not complete on the schedule. -/
theorem Scheduled.works (h : s.Scheduled) (hworks : Works doc s s') : s'.Scheduled := by
  intro henabled hleft
  rw [hworks.schedule hleft]
  exact h (hworks.keeps.enabled ▸ henabled) (hworks.incomplete hleft)

variable {doc' : Document} {e : Edit} {staleness : Staleness} {paint : Paint}

/-- All that an edit does to the analysis and to the schedule. -/
theorem repair_cases (s : Session) (doc : Document) (e : Edit) :
    (s.lexicon.hasRegions = false ∧ s.repair doc e = s) ∨
      (s.lexicon.hasRegions = true ∧
        ((∃ a, s.analysis.update? s.lexicon doc e s.settings.stepBudget = some a ∧
            s.repair doc e = { s with analysis := a }) ∨
          s.repair doc e =
            { s with analysis := s.analysis.invalidate doc e, pacer := s.pacer.arm })) := by
  rw [repair]
  by_cases hregions : s.lexicon.hasRegions = true
  · rw [if_pos hregions]
    refine .inr ⟨hregions, ?_⟩
    cases hup : s.analysis.update? s.lexicon doc e s.settings.stepBudget with
    | some a => exact .inl ⟨a, rfl, rfl⟩
    | none => exact .inr rfl
  · rw [if_neg hregions]
    exact .inl ⟨Bool.eq_false_iff.2 hregions, rfl⟩

/-- **An edit** moves all along with the text. -/
theorem Bounded.applyEdit (h : s.Bounded doc) (hedit : Edited doc.chars doc'.chars e)
    (hpaint : s.paint.Carried paint e) (hdirty : s.staleness.dirty.Carried staleness.dirty e) :
    (Session.applyEdit { s with staleness, paint } doc' e).Bounded doc' := by
  have hlen := doc.length_eq
  have hsize : shift doc.chars.size e.delta = doc'.length := doc'.length_eq ▸ hedit.shift_size
  have hlaid : Laid 0 paint.spans doc'.length :=
    hsize ▸ hpaint.laid _ hedit.inside (hlen ▸ h.laid)
  have hupto : staleness.dirty.Upto doc'.length :=
    hsize ▸ hdirty.upto _ hedit.inside (hlen ▸ h.upto)
  rw [Session.applyEdit]
  split
  · rename_i henabled
    have hwithin := hlen ▸ h.analysis henabled
    have hupto := hupto.insert (doc'.snapToLines_stop_le ⟨e.pos, e.newStop⟩)
    rcases repair_cases { s with staleness, paint } doc' e with
      ⟨hno, heq⟩ | ⟨hregions, ⟨a, hup, heq⟩ | heq⟩
    · rw [heq]
      have hquiet := h.quiet hno
      exact ⟨fun _ => hquiet.within _, fun _ => hquiet, hupto, hlaid⟩
    · rw [heq]
      exact ⟨fun _ => hwithin.update? hedit hup, fun hno => absurd (hregions.symm.trans hno) (by decide),
        hupto, hlaid⟩
    · rw [heq]
      exact ⟨fun _ => hwithin.invalidate hedit, fun hno => absurd (hregions.symm.trans hno) (by decide),
        hupto, hlaid⟩
  · rename_i hoff
    exact ⟨fun hon => absurd hon hoff, h.quiet, hupto, hlaid⟩

/-- An edit keeps what is not complete on the schedule. -/
theorem Scheduled.applyEdit (h : s.Scheduled) (doc : Document) (e : Edit) :
    (s.applyEdit doc e).Scheduled := by
  rw [Session.applyEdit]
  split
  · rcases repair_cases s doc e with ⟨-, heq⟩ | ⟨-, ⟨a, hup, heq⟩ | heq⟩
    · rw [heq]
      exact h
    · rw [heq]
      intro henabled hleft
      refine h henabled ?_
      have hleft : a.table.frontier.isNone = false := hleft
      rw [(Analysis.update?_frontier hup).1, Option.isNone_map] at hleft
      exact hleft
    · rw [heq]
      exact fun _ _ => rfl
  · exact h

/-- An edit puts work on the schedule of a session that is on, and takes nothing off. -/
theorem armed_applyEdit (hon : s.pacer.armed = true → s.enabled = true) (doc : Document) (e : Edit) :
    (s.applyEdit doc e).pacer.armed = true → s.enabled = true := by
  rw [Session.applyEdit]
  split
  · exact fun _ => by assumption
  · exact hon

/-- A session that starts over is inside its text. -/
theorem bounded_rebuild (s : Session) (doc : Document) : (s.rebuild doc).Bounded doc := by
  rw [rebuild]
  dsimp only
  split
  · exact ⟨fun _ => Analysis.within_fresh _, fun _ => .inl rfl,
      (ExtentSet.upto_empty _).insert (Nat.le_refl _), Nat.zero_le _⟩
  · exact ⟨fun _ => Analysis.within_fresh _, fun _ => .inl rfl, ExtentSet.upto_empty _,
      Nat.zero_le _⟩

/-- To start over arms a session that is on. -/
theorem rebuild_armed (s : Session) (doc : Document) :
    (s.rebuild doc).pacer.armed = (s.enabled || s.pacer.armed) := by
  rw [rebuild]
  dsimp only
  cases henabled : s.enabled <;> rfl

end Session

/-! ## Buffers -/

namespace Buffer

variable {b b' : Buffer}

/-- A buffer that operations lead to. -/
inductive Reachable : Buffer → Prop
  | ofText (name : String) (text : Document) (settings : Settings) :
      Reachable (ofText name text settings)
  | ofFile (path : String) (contents : Document) (settings : Settings) :
      Reachable (ofFile path contents settings)
  | op {b : Buffer} (h : Reachable b) (o : Op) : Reachable (o.apply b)
  /-- Its session is called with its own text. -/
  | call {b : Buffer} (h : Reachable b) (c : Session.Call) :
      Reachable { b with session := c.apply b.document b.session }
  | runUntilIdle {b b' : Buffer} {nanoseconds quanta : Nat} (h : Reachable b)
      (hidle : b.runUntilIdle nanoseconds = some (b', quanta)) : Reachable b'
  | setGrammar {b : Buffer} (h : Reachable b) (g : Grammar) : Reachable (b.setGrammar g)
  | setLanguage {b b' : Buffer} {catalog : Catalog} {name : String} (h : Reachable b)
      (hfound : b.setLanguage catalog name = .ok b') : Reachable b'
  | detectLanguage {b : Buffer} (h : Reachable b) (catalog : Catalog) :
      Reachable (b.detectLanguage catalog).1
  | setHighlighting {b : Buffer} (h : Reachable b) (on : Bool) : Reachable (b.setHighlighting on)
  | setModified {b : Buffer} (h : Reachable b) (on : Bool) : Reachable { b with modified := on }
  | save {b b' : Buffer} {path contents : String} (h : Reachable b)
      (hsaved : b.save = .ok (b', path, contents)) : Reachable b'
  | connect {b : Buffer} (h : Reachable b) : Reachable { b with session := b.session.connect.1 }
  | disconnect {b : Buffer} (h : Reachable b) (listener : Nat) :
      Reachable { b with session := (b.session.disconnect listener).1 }
  | collect {b : Buffer} (h : Reachable b) : Reachable { b with session := b.session.collect.1 }

/-- A buffer that gets a grammar, and then a text with a region over two lines. -/
def twoLines : Buffer := ((new "notes" {}).setGrammar .lisp).insert 0 #['(', '\n', ')']

/-- Two operations lead to it. -/
theorem reachable_twoLines : Reachable twoLines :=
  .op (.setGrammar (.ofText "notes" .empty {}) .lisp) (.change (.insert 0 #['(', '\n', ')']))

/-- What every operation keeps.  Only a session that is on is scheduled, and all of its analysis is
    scheduled once a grammar has been set. -/
structure Tended (b : Buffer) : Prop where
  bounded   : b.session.Bounded b.document
  on        : b.session.pacer.armed = true → b.session.enabled = true
  scheduled : b.language.isSome = true → b.session.Scheduled
  plain     : b.language = none → b.session.lexicon.hasRegions = false

namespace Tended

theorem ofText (name : String) (text : Document) (settings : Settings) :
    (ofText name text settings).Tended where
  bounded := ⟨fun _ => Analysis.within_fresh _, fun _ => .inl rfl, ExtentSet.upto_empty _,
    Nat.zero_le _⟩
  on harmed := absurd harmed Bool.false_ne_true
  scheduled hnamed := absurd hnamed Bool.false_ne_true
  plain _ := rfl

/-- Work on demand keeps a buffer tended. -/
theorem works (h : b.Tended) {s : Session} (hworks : Session.Works b.document b.session s) :
    Tended { b with session := s } where
  bounded := hworks.bounded
  on harmed := hworks.keeps.enabled.trans (h.on (hworks.armed harmed))
  scheduled hnamed := (h.scheduled hnamed).works hworks
  plain hnone := hworks.keeps.lexicon ▸ h.plain hnone

/-- Who listens does not matter to a tended buffer. -/
theorem listening (h : b.Tended) (listeners : List Nat) (nextListener : Nat)
    (mail : List (Nat × Extent)) :
    Tended { b with session := { b.session with listeners, nextListener, mail } } := by
  obtain ⟨hanalysis, hquiet, hupto, hlaid⟩ := h.bounded
  exact h.works (Session.Bounded.works ⟨hanalysis, hquiet, hupto, hlaid⟩ ⟨rfl, rfl, rfl⟩ rfl rfl)

theorem change_language (b : Buffer) (c : Change) : (b.change c).language = b.language := by
  cases c with
  | insert pos text =>
      show (b.insert pos text).language = _
      rw [Buffer.insert]
      split <;> rfl
  | delete range =>
      show (b.delete range).1.language = _
      rw [Buffer.delete]
      split <;> rfl

theorem change (h : b.Tended) (c : Change) : (b.change c).Tended := by
  rcases change_spec h.bounded.laid c with ⟨-, hsame⟩ | ⟨-, st, p, hp, hst, hdoc, hs⟩
  · rwa [hsame]
  · have hkeeps := Session.keeps_applyEdit { b.session with staleness := st, paint := p }
      (c.apply b.document) (c.edit b.document)
    refine ⟨?_, ?_, ?_, ?_⟩
    · rw [hdoc, hs]
      exact h.bounded.applyEdit (c.edited b.document) hp hst
    · rw [hs, hkeeps.enabled]
      exact Session.armed_applyEdit (s := { b.session with staleness := st, paint := p }) h.on _ _
    · rw [change_language, hs]
      exact fun hnamed => Session.Scheduled.applyEdit
        (s := { b.session with staleness := st, paint := p }) (h.scheduled hnamed) _ _
    · rw [change_language, hs, hkeeps.lexicon]
      exact h.plain

/-- Every operation keeps a buffer tended. -/
theorem op (h : b.Tended) (o : Op) : (o.apply b).Tended := by
  cases o with
  | change c => exact h.change c
  | highlight range => exact h.works (h.bounded.call (.highlight range))
  | request range => exact h.works (h.bounded.call (.request range))
  | runBackground nanoseconds => exact h.works (h.bounded.call (.runBackground nanoseconds))
  | matchingBracket pos => exact h.works (h.bounded.call (.matchingBracket pos _))
  | jumpToBracket pos => exact h.works (h.bounded.call (.matchingBracket pos none))

/-- Starting over puts the whole text on the schedule of a session that is on. -/
theorem restart (b : Buffer) {s : Session}
    (hon : s.pacer.armed = true → s.enabled = true) {language : Option String}
    (hplain : language = none → s.lexicon.hasRegions = false) :
    Tended { b with language, session := s.rebuild b.document } := by
  have hkeeps := Session.keeps_rebuild s b.document
  refine ⟨Session.bounded_rebuild s b.document, ?_, ?_,
    fun hnone => hkeeps.lexicon ▸ hplain hnone⟩
  · intro harmed
    rw [hkeeps.enabled]
    rw [Session.rebuild_armed] at harmed
    exact (Bool.or_eq_true_iff.1 harmed).elim id hon
  · intro _ henabled _
    rw [hkeeps.enabled] at henabled
    rw [Session.rebuild_armed, henabled, Bool.true_or]

theorem setGrammar (h : b.Tended) (g : Grammar) : (b.setGrammar g).Tended :=
  restart b (s := { b.session with lexicon := .ofGrammar g }) h.on fun hnone =>
    absurd hnone (Option.some_ne_none g.name)

theorem setHighlighting (h : b.Tended) (on : Bool) : (b.setHighlighting on).Tended := by
  rw [Buffer.setHighlighting, Session.setEnabled]
  split
  · exact h
  · cases on with
    | true => exact restart b (s := { b.session with enabled := true }) (fun _ => rfl) h.plain
    | false =>
        refine ⟨⟨fun hon => absurd hon Bool.false_ne_true, h.bounded.quiet,
          ExtentSet.upto_empty _, Nat.zero_le _⟩,
          fun harmed => absurd harmed Bool.false_ne_true,
          fun _ hon => absurd hon Bool.false_ne_true, h.plain⟩

end Tended

/-- Only a language that the catalog knows is set. -/
theorem setLanguage_eq_ok {b b' : Buffer} {catalog : Catalog} {name : String}
    (h : b.setLanguage catalog name = .ok b') : ∃ g, b' = b.setGrammar g := by
  rw [Buffer.setLanguage] at h
  cases hfound : catalog.require name with
  | error failure =>
      rw [hfound] at h
      exact nomatch h
  | ok g =>
      rw [hfound] at h
      exact ⟨g, (Except.ok.inj h).symm⟩

/-- Without a language for the extension nothing changes. -/
theorem detectLanguage_cases (b : Buffer) (catalog : Catalog) :
    (b.detectLanguage catalog).1 = b ∨ ∃ g, (b.detectLanguage catalog).1 = b.setGrammar g := by
  rw [Buffer.detectLanguage]
  split
  · exact .inr ⟨_, rfl⟩
  · exact .inl rfl

/-- Saving does nothing but to mark the buffer as not modified. -/
theorem save_eq_ok {b b' : Buffer} {path contents : String}
    (h : b.save = .ok (b', path, contents)) : b' = { b with modified := false } := by
  rw [Buffer.save] at h
  split at h
  · exact (Prod.mk.inj (Except.ok.inj h)).1.symm
  · exact nomatch h

/-- To run until idle is to drain the session. -/
theorem runUntilIdle_eq_some {nanoseconds quanta : Nat}
    (h : b.runUntilIdle nanoseconds = some (b', quanta)) :
    ∃ s, b.session.drain b.document nanoseconds b.quantumLimit = some (s, quanta) ∧
      b' = { b with session := s } := by
  obtain ⟨⟨s, n⟩, hdrain, heq⟩ := Option.map_eq_some_iff.1 h
  obtain ⟨rfl, rfl⟩ := Prod.mk.inj heq
  exact ⟨s, hdrain, rfl⟩

/-- **Every buffer that operations lead to is tended.** -/
theorem Reachable.tended (h : b.Reachable) : b.Tended := by
  -- an operation edits the text, works on demand, starts over, or leaves the analysis alone
  induction h with
  | ofText name text settings => exact .ofText name text settings
  | ofFile path contents settings =>
      obtain ⟨hbounded, hon, hscheduled, hplain⟩ :=
        Tended.ofText ((Path.fileName? path).getD "unnamed") contents settings
      exact ⟨hbounded, hon, hscheduled, hplain⟩
  | op _ o ih => exact ih.op o
  | call _ c ih => exact ih.works (ih.bounded.call c)
  | runUntilIdle _ hidle ih =>
      obtain ⟨s, hdrain, rfl⟩ := runUntilIdle_eq_some hidle
      exact ih.works (ih.bounded.drain hdrain)
  | setGrammar _ g ih => exact ih.setGrammar g
  | @setLanguage b b' catalog name _ hfound ih =>
      obtain ⟨g, rfl⟩ := setLanguage_eq_ok hfound
      exact ih.setGrammar g
  | @detectLanguage b _ catalog ih =>
      rcases b.detectLanguage_cases catalog with heq | ⟨g, heq⟩
      · rwa [heq]
      · rw [heq]
        exact ih.setGrammar g
  | setHighlighting _ on ih => exact ih.setHighlighting on
  | setModified _ on ih => exact ⟨ih.bounded, ih.on, ih.scheduled, ih.plain⟩
  | @save b b' path contents _ hsaved ih =>
      obtain rfl := save_eq_ok hsaved
      exact ⟨ih.bounded, ih.on, ih.scheduled, ih.plain⟩
  | connect _ ih => exact ih.listening _ _ _
  | disconnect _ listener ih => exact ih.listening _ _ _
  | collect _ ih => exact ih.listening _ _ _

/-! ## What a buffer shows -/

/-- The spans of a range lie in order inside it, as the paint lies in order inside the text. -/
theorem Tended.arranged (h : b.Tended) (range : Extent) :
    Arranged (b.highlight range).2 (range.clampTo b.length) := by
  show Arranged (b.session.highlight b.document range).2 (range.clampTo b.document.length)
  rw [Session.highlight]
  split
  · have hlaid := (h.bounded.ensureHighlighted
      (b.document.snapToLines (range.clampTo b.document.length))).bounded.laid
    dsimp only
    generalize b.session.ensureHighlighted b.document _ = s at hlaid ⊢
    generalize range.clampTo b.document.length = window
    rw [Paint.query_eq hlaid]
    by_cases hle : window.start ≤ window.stop
    · exact (hlaid.clipped hle).arranged
    · rw [clipped_of_le (by omega)]
      exact ⟨by simp, .nil, by simp⟩
  · exact ⟨by simp, .nil, by simp⟩

/-- **Whatever the patterns match, spans are well formed.**  A buffer answers non-empty spans in
    order, none over another, inside the range asked for.  And all that rendering hands to
    `replace`, in any session, has a window that is not reversed and spans of that kind inside
    it. -/
theorem highlight_arranged (h : b.Reachable) :
    (∀ range, Arranged (b.highlight range).2 (range.clampTo b.length)) ∧
      ∀ (s : Session) (doc : Document) (range : Extent),
        (s.renderStale doc range).paint =
            (s.replacements doc range).foldl Replacement.apply s.paint ∧
          ∀ r ∈ s.replacements doc range,
            r.window.start ≤ r.window.stop ∧ Arranged r.spans r.window := by
  refine ⟨h.tended.arranged, fun s doc range => ⟨s.renderStale_paint doc range, ?_⟩⟩
  intro r hr
  have hlaid := s.replacements_laid doc range r hr
  exact ⟨hlaid.le, hlaid.arranged⟩

/-- A region over two lines. -/
theorem highlight_arranged_twoLines : Reachable twoLines ∧
    (∀ range, Arranged (twoLines.highlight range).2 (range.clampTo twoLines.length)) ∧
      ∀ (s : Session) (doc : Document) (range : Extent),
        (s.renderStale doc range).paint =
            (s.replacements doc range).foldl Replacement.apply s.paint ∧
          ∀ r ∈ s.replacements doc range,
            r.window.start ≤ r.window.stop ∧ Arranged r.spans r.window :=
  ⟨reachable_twoLines, highlight_arranged reachable_twoLines⟩

end Buffer

end Highlighter
