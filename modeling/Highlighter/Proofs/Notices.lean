import Highlighter.Proofs.Background
import Mathlib.Data.List.Nodup

/-! # Notices — whatever goes stale is told

    What a session does never depends on who listens, and each listener is told the same
    ranges (`Session.Tells`).  All that goes stale, by an edit, by a batch or by starting
    over, lies in a range that is told then and there (`Session.Announces`); rendering only
    makes offsets clean.  Both are carried from one step to the next (`Announces.trans`), so
    they hold of a call, of quanta until no work is left, and of an edit. -/

namespace Highlighter

/-- Where an edit takes an offset of the text before it; nowhere when its char is gone. -/
def Edit.image? (e : Edit) (o : Nat) : Option Nat :=
  if o < e.pos then some o else if e.oldStop ≤ o then some (shift o e.delta) else none

/-- An edit that leaves the length of the text leaves every offset. -/
theorem Edit.image?_of_still {e : Edit} (hstill : e.delta = 0) (o : Nat) : e.image? o = some o := by
  have hold : e.oldStop = e.pos := by
    show e.pos + (-e.delta).toNat = e.pos
    omega
  have hshift : shift o e.delta = o := by
    rw [hstill, shift_zero]
  rw [Edit.image?, hold, hshift]
  split
  · rfl
  · rw [if_pos (by omega)]

namespace Session

variable {s : Session} {doc doc' : Document} {f g : Session → Session} {told told' : List Extent}

/-! ## Who listens -/

/-- The session with other listeners and other mail. -/
def hearing (s : Session) (listeners : List Nat) (mail : List (Nat × Extent)) : Session :=
  { s with listeners, mail }

/-- The mail of listeners that are told some ranges. -/
def letters (listeners : List Nat) (told : List Extent) : List (Nat × Extent) :=
  told.flatMap fun e => listeners.map (·, e)

/-- The ranges a listener has been told and that are not collected yet. -/
def heard (s : Session) (listener : Nat) : List Extent :=
  (s.mail.filter (·.1 == listener)).map (·.2)

@[simp] theorem letters_nil (listeners : List Nat) : letters listeners [] = [] := rfl

@[simp] theorem letters_singleton (listeners : List Nat) (e : Extent) :
    letters listeners [e] = listeners.map (·, e) := List.append_nil _

/-- Ranges told in turn come as mail in turn. -/
theorem letters_append (listeners : List Nat) (told told' : List Extent) :
    letters listeners (told ++ told') = letters listeners told ++ letters listeners told' :=
  List.flatMap_append

/-- Each listener hears all that is told, in order. -/
theorem heard_letters {listeners : List Nat} (hnodup : listeners.Nodup) {l : Nat}
    (hl : l ∈ listeners) (told : List Extent) :
    ((letters listeners told).filter (·.1 == l)).map (·.2) = told := by
  have hone : ∀ e : Extent, (listeners.map (·, e)).filter (·.1 == l) = [(l, e)] := by
    intro e
    rw [List.filter_map]
    show (listeners.filter (· == l)).map (·, e) = [(l, e)]
    rw [List.filter_beq, List.count_eq_one_of_mem hnodup hl]
    rfl
  induction told with
  | nil => rfl
  | cons e rest ih =>
      show ((listeners.map (·, e) ++ letters listeners rest).filter (·.1 == l)).map (·.2) = e :: rest
      rw [List.filter_append, hone, List.map_append, ih]
      rfl

/-! ## What a step tells -/

/-- From this session the step tells just these ranges to whoever listens, and does the same
    whoever that is. -/
structure Tells (f : Session → Session) (s : Session) (told : List Extent) : Prop where
  hears : ∀ listeners mail,
    f (s.hearing listeners mail) = (f s).hearing listeners (mail ++ letters listeners told)
  next  : (f s).nextListener = s.nextListener

/-- What the step makes dirty lies in a range that it tells. -/
structure Announces (f : Session → Session) (s : Session) (told : List Extent) : Prop
    extends Tells f s told where
  enabled : (f s).enabled = s.enabled
  dirty   : ∀ x ∈ (f s).staleness.dirty,
    x ∈ s.staleness.dirty ∨ s.enabled = true ∧ ∃ e ∈ told, x ∈ e

/-- A step that does what another one does tells the same. -/
theorem Tells.of_eq (h : Tells g s told)
    (heq : ∀ listeners mail, f (s.hearing listeners mail) = g (s.hearing listeners mail)) :
    Tells f s told := by
  have hs : f s = g s := heq s.listeners s.mail
  constructor
  · intro listeners mail
    rw [heq, hs, h.hears]
  · rw [hs, h.next]

/-- A step announces what another one does that is the same whoever listens. -/
theorem Announces.of_eq (h : Announces g s told)
    (heq : ∀ listeners mail, f (s.hearing listeners mail) = g (s.hearing listeners mail)) :
    Announces f s told := by
  have hs : f s = g s := heq s.listeners s.mail
  refine ⟨h.toTells.of_eq heq, ?_, ?_⟩
  · rw [hs, h.enabled]
  · rw [hs]
    exact h.dirty

/-- A step that tells nothing and makes nothing dirty. -/
theorem Announces.quiet
    (hhears : ∀ listeners mail, f (s.hearing listeners mail) = (f s).hearing listeners mail)
    (hnext : (f s).nextListener = s.nextListener) (henabled : (f s).enabled = s.enabled)
    (hdirty : ∀ x ∈ (f s).staleness.dirty, x ∈ s.staleness.dirty) : Announces f s [] := by
  refine ⟨⟨?_, hnext⟩, henabled, fun x hx => .inl (hdirty x hx)⟩
  intro listeners mail
  rw [letters_nil, List.append_nil, hhears]

/-- To do nothing is to announce nothing. -/
theorem Announces.refl (s : Session) : Announces (fun s => s) s [] :=
  .quiet (fun _ _ => rfl) rfl rfl fun _ hx => hx

/-- Two steps announce what the first announces and then what the second does. -/
theorem Announces.trans (h : Announces f s told) (h' : Announces g (f s) told') :
    Announces (fun s => g (f s)) s (told ++ told') := by
  refine ⟨⟨?_, h'.next.trans h.next⟩, h'.enabled.trans h.enabled, ?_⟩
  · intro listeners mail
    rw [h.hears, h'.hears, letters_append, List.append_assoc]
  · intro x hx
    rcases h'.dirty x hx with hx | ⟨hon, e, he, hx⟩
    · rcases h.dirty x hx with hx | ⟨hon, e, he, hx⟩
      · exact .inl hx
      · exact .inr ⟨hon, e, List.mem_append_left told' he, hx⟩
    · exact .inr ⟨h.enabled ▸ hon, e, List.mem_append_right told he, hx⟩

/-- A step that only some sessions take, whoever listens. -/
theorem Announces.branch (c : Session → Bool)
    (hc : ∀ listeners mail, c (s.hearing listeners mail) = c s)
    (hon : ∀ t, c t = true → f t = g t) (hoff : ∀ t, ¬c t = true → f t = t)
    (h : c s = true → ∃ told, Announces g s told) : ∃ told, Announces f s told := by
  by_cases htaken : c s = true
  · obtain ⟨told, htold⟩ := h htaken
    exact ⟨told, htold.of_eq fun listeners mail => hon _ ((hc listeners mail).trans htaken)⟩
  · refine ⟨[], (Announces.refl s).of_eq fun listeners mail => hoff _ ?_⟩
    rwa [hc]

/-- Marking a range tells it. -/
theorem announces_disturb (hdirty : s.staleness.dirty.Canonical) (henabled : s.enabled = true)
    (e : Extent) : Announces (·.disturb e) s [e] := by
  refine ⟨⟨?_, rfl⟩, rfl, ?_⟩
  · intro listeners mail
    rw [letters_singleton]
    rfl
  · intro x hx
    rcases hdirty.mem_insert_iff.1 hx with hx | hx
    · exact .inl hx
    · exact .inr ⟨henabled, e, List.mem_singleton_self e, hx⟩

/-! ## Work on demand -/

namespace Bounded

/-- To mark a stretch as analyzed announces what it makes dirty. -/
theorem announces_analyzed (h : s.Bounded doc) (henabled : s.enabled = true) (range : Extent) :
    ∃ told, Announces (·.analyzed doc range) s told := by
  by_cases hempty : range.isEmpty = true
  · exact ⟨[], (Announces.refl s).of_eq fun _ _ => if_pos hempty⟩
  · refine ⟨_, (announces_disturb h.upto.canonical henabled (doc.snapToLines range)).of_eq ?_⟩
    exact fun _ _ => if_neg hempty

/-- What follows a batch decides what it announces. -/
theorem announces_batch (s : Session) (doc : Document) (next : Session → BuildReport → Session)
    (hnext : ∀ a' report, s.analysis.build s.lexicon doc s.pacer.batch = some (a', report) →
      ∃ told, Announces (fun t => next { t with analysis := a' } report) s told) :
    ∃ told, Announces (fun t => match t.analyzeBatch doc with
      | some (t, report) => next t report
      | none => t) s told := by
  have hbatch : ∀ listeners mail, (s.hearing listeners mail).analyzeBatch doc =
      (s.analysis.build s.lexicon doc s.pacer.batch).map fun built =>
        ({ s.hearing listeners mail with analysis := built.1 }, built.2) := fun _ _ => rfl
  cases hbuild : s.analysis.build s.lexicon doc s.pacer.batch with
  | none =>
      refine ⟨[], (Announces.refl s).of_eq ?_⟩
      intro listeners mail
      simp only [hbatch, hbuild, Option.map_none]
  | some built =>
      obtain ⟨a', report⟩ := built
      obtain ⟨told, htold⟩ := hnext a' report hbuild
      refine ⟨told, htold.of_eq ?_⟩
      intro listeners mail
      simp only [hbatch, hbuild, Option.map_some]

/-- Marking what a batch has scanned. -/
theorem announces_marked (h : s.Bounded doc) (henabled : s.enabled = true) {a' : Analysis}
    {report : BuildReport}
    (hbuild : s.analysis.build s.lexicon doc s.pacer.batch = some (a', report))
    (pace : Pacer → Pacer) (hpace : (pace s.pacer).armed = s.pacer.armed) :
    ∃ told, Announces (fun t => Session.analyzed
      { t with analysis := a', pacer := pace t.pacer } doc report.range) s told := by
  obtain ⟨hworks, -, -⟩ := h.batch henabled hbuild hpace
  have hframe : Announces (fun t : Session => { t with analysis := a', pacer := pace t.pacer }) s [] :=
    .quiet (fun _ _ => rfl) rfl rfl fun _ hx => hx
  obtain ⟨told, htold⟩ :=
    hworks.bounded.announces_analyzed (hworks.keeps.enabled.trans henabled) report.range
  exact ⟨_, hframe.trans htold⟩

theorem announces_analyzeWithin (h : s.Bounded doc) (henabled : s.enabled = true)
    (upto rounds : Nat) : ∃ told, Announces (Session.analyzeWithin doc upto rounds) s told := by
  induction rounds generalizing s with
  | zero => exact ⟨[], .refl s⟩
  | succ rounds ih =>
      refine Announces.branch (fun t => t.analysis.table.frontier.any fun f => f.offset < upto)
        (fun _ _ => rfl) (fun t hdue => by rw [Session.analyzeWithin, if_pos hdue])
        (fun t hdone => by rw [Session.analyzeWithin, if_neg hdone]) fun _ => ?_
      -- the batch is marked and told; the rounds that are left go on from there
      refine announces_batch s doc
        (fun t report => Session.analyzeWithin doc upto rounds (t.analyzed doc report.range))
        fun a' report hbuild => ?_
      obtain ⟨told, htold⟩ := h.announces_marked henabled hbuild id rfl
      obtain ⟨hbatch, -, -⟩ := h.batch henabled hbuild (rfl : s.pacer.armed = s.pacer.armed)
      have hmarked := hbatch.trans (hbatch.bounded.analyzed report.range)
      obtain ⟨told', htold'⟩ := ih hmarked.bounded (hmarked.keeps.enabled.trans henabled)
      exact ⟨_, htold.trans htold'⟩

theorem announces_ensureAnalyzed (h : s.Bounded doc) (henabled : s.enabled = true) (upto : Nat) :
    ∃ told, Announces (·.ensureAnalyzed doc upto) s told :=
  h.announces_analyzeWithin henabled upto (roundLimit doc)

/-- Rendering tells nothing. -/
theorem announces_renderStale (h : s.Bounded doc) (range : Extent) :
    Announces (·.renderStale doc range) s [] := by
  obtain ⟨hclean, -⟩ := h.renderStale_clean range
  exact .quiet (fun _ _ => rfl) rfl rfl fun x hx => (hclean x hx).1

theorem announces_ensureHighlighted (h : s.Bounded doc) (range : Extent) :
    ∃ told, Announces (·.ensureHighlighted doc range) s told := by
  refine Announces.branch Session.enabled (fun _ _ => rfl) (fun t hon => if_pos hon)
    (fun t hoff => if_neg hoff) fun henabled => ?_
  obtain ⟨told, htold⟩ := h.announces_ensureAnalyzed henabled range.stop
  have hworks := h.ensureAnalyzed henabled range.stop
  exact ⟨_, htold.trans (hworks.bounded.announces_renderStale range)⟩

theorem announces_highlight (h : s.Bounded doc) (range : Extent) :
    ∃ told, Announces (fun t => (t.highlight doc range).1) s told := by
  refine Announces.branch Session.enabled (fun _ _ => rfl) ?_ ?_
    fun _ => h.announces_ensureHighlighted (doc.snapToLines (range.clampTo doc.length))
  · intro t hon
    rw [Session.highlight, if_pos hon]
  · intro t hoff
    rw [Session.highlight, if_neg hoff]

theorem announces_analyzeTimed (h : s.Bounded doc) (henabled : s.enabled = true)
    (nanoseconds : Nat) : ∃ told, Announces (·.analyzeTimed doc nanoseconds) s told :=
  announces_batch s doc
    (fun t report => Session.analyzed
      { t with pacer := t.pacer.record report.processed nanoseconds } doc report.range)
    fun _ report hbuild => h.announces_marked henabled hbuild
      (fun p => p.record report.processed nanoseconds)
      (s.pacer.record_armed report.processed nanoseconds)

theorem announces_retire (s : Session) : ∃ told, Announces (·.retire) s told := by
  refine Announces.branch (fun t => t.analysis.table.isComplete) (fun _ _ => rfl)
    (g := fun t => { t with pacer := t.pacer.cancel }) (fun t hdone => if_pos hdone)
    (fun t hleft => if_neg hleft) fun _ => ⟨[], ?_⟩
  exact .quiet (fun _ _ => rfl) rfl rfl fun _ hx => hx

theorem announces_analyzeScheduled (h : s.Bounded doc) (henabled : s.enabled = true)
    (nanoseconds : Nat) : ∃ told, Announces (·.analyzeScheduled doc nanoseconds) s told := by
  refine Announces.branch (fun t => t.pacer.armed) (fun _ _ => rfl) (fun t harmed => if_pos harmed)
    (fun t hidle => if_neg hidle) fun _ => ?_
  obtain ⟨told, htold⟩ := h.announces_analyzeTimed henabled nanoseconds
  obtain ⟨told', htold'⟩ := announces_retire (s.analyzeTimed doc nanoseconds)
  exact ⟨_, htold.trans htold'⟩

/-- To render a wanted range makes nothing dirty. -/
theorem announces_renderUpTo (h : s.Bounded doc) (reach : Nat) (range : Extent) :
    Announces (·.renderUpTo doc reach range) s [] := by
  by_cases hlt : range.start < min range.stop reach
  · exact (h.announces_renderStale _).of_eq fun _ _ => if_pos hlt
  · exact (Announces.refl s).of_eq fun _ _ => if_neg hlt

theorem announces_renderRanges (h : s.Bounded doc) (henabled : s.enabled = true) (reach : Nat)
    (ranges : List Extent) :
    Announces (fun t => ranges.foldl (Session.renderUpTo doc reach) t) s [] := by
  induction ranges generalizing s with
  | nil => exact .refl s
  | cons range rest ih =>
      have hworks := h.renderUpTo henabled reach range
      exact (h.announces_renderUpTo reach range).trans
        (ih hworks.bounded (hworks.keeps.enabled.trans henabled))

/-- The requests are those of the session before the first pass, so they stay while it changes. -/
theorem announces_renderRequested (h : s.Bounded doc) (henabled : s.enabled = true) :
    Announces (·.renderRequested doc) s [] :=
  (h.announces_renderRanges henabled (s.analysis.table.reach doc.length)
    s.staleness.pending).of_eq fun _ _ => rfl

/-- A quantum announces what it makes dirty. -/
theorem announces_runBackground (h : s.Bounded doc) (nanoseconds : Nat) :
    ∃ told, Announces (fun t => (t.runBackground doc nanoseconds).1) s told := by
  refine Announces.branch Session.enabled (fun _ _ => rfl)
    (g := fun t => (t.analyzeScheduled doc nanoseconds).renderRequested doc) (fun t hon => ?_)
    (fun t hoff => ?_) fun henabled => ?_
  · rw [Session.runBackground, if_pos hon]
  · rw [Session.runBackground, if_neg hoff]
  · obtain ⟨told, htold⟩ := h.announces_analyzeScheduled henabled nanoseconds
    have hworks := h.analyzeScheduled henabled nanoseconds
    exact ⟨_, htold.trans (hworks.bounded.announces_renderRequested
      (hworks.keeps.enabled.trans henabled))⟩

theorem announces_matchingBracket (h : s.Bounded doc) (pos : Nat) (limit : Option Nat) :
    ∃ told, Announces (fun t => (t.matchingBracket doc pos limit).1) s told := by
  exact Announces.branch (fun t => t.enabled && t.lexicon.hasRegions) (fun _ _ => rfl)
    (fun t hon => congrArg Prod.fst (if_pos hon)) (fun t hoff => congrArg Prod.fst (if_neg hoff))
    fun hon => h.announces_ensureAnalyzed (Bool.and_eq_true_iff.1 hon).1 _

/-- **Every call** announces what it makes dirty. -/
theorem announces_call (h : s.Bounded doc) (c : Call) :
    ∃ told, Announces (fun t => c.apply doc t) s told := by
  cases c with
  | highlight range => exact h.announces_highlight range
  | ensureHighlighted range => exact h.announces_ensureHighlighted range
  | request range => exact ⟨[], .quiet (fun _ _ => rfl) rfl rfl fun _ hx => hx⟩
  | clearRequested => exact ⟨[], .quiet (fun _ _ => rfl) rfl rfl fun _ hx => hx⟩
  | runBackground nanoseconds => exact h.announces_runBackground nanoseconds
  | matchingBracket pos limit => exact h.announces_matchingBracket pos limit

/-- Quanta announce what they make dirty. -/
theorem announces_quanta (h : s.Bounded doc) (times : List Nat) :
    ∃ told, Announces (·.quanta doc times) s told := by
  induction times generalizing s with
  | nil => exact ⟨[], .refl s⟩
  | cons nanoseconds rest ih =>
      obtain ⟨told, htold⟩ := h.announces_runBackground nanoseconds
      obtain ⟨told', htold'⟩ := ih (h.runBackground nanoseconds).bounded
      exact ⟨_, htold.trans htold'⟩

end Bounded

/-- A quantum answers whether work is left. -/
theorem runBackground_snd (s : Session) (doc : Document) (nanoseconds : Nat) :
    (s.runBackground doc nanoseconds).2 = (s.runBackground doc nanoseconds).1.hasPendingWork := by
  rw [runBackground]
  split
  · rfl
  · rename_i hoff
    rw [hasPendingWork, Bool.eq_false_iff.2 hoff, Bool.false_and]

/-- To drain is to run a quantum as long as there is pending work. -/
theorem drain_succ (s : Session) (doc : Document) (nanoseconds limit : Nat) :
    drain doc nanoseconds (limit + 1) s =
      if s.hasPendingWork then
        if (s.runBackground doc nanoseconds).1.hasPendingWork then
          (drain doc nanoseconds limit (s.runBackground doc nanoseconds).1).map fun (t, n) => (t, n + 1)
        else some ((s.runBackground doc nanoseconds).1, 1)
      else some (s, 0) := by
  have hmore := s.runBackground_snd doc nanoseconds
  rw [drain]
  generalize s.runBackground doc nanoseconds = quantum at hmore
  obtain ⟨t, more⟩ := quantum
  have hmore : more = t.hasPendingWork := hmore
  subst hmore
  cases hleft : t.hasPendingWork <;> simp

/-- A run until no work is left is a run of quanta. -/
theorem drain_eq_quanta {s' : Session} {nanoseconds limit n : Nat}
    (hdrain : drain doc nanoseconds limit s = some (s', n)) :
    s' = s.quanta doc (List.replicate n nanoseconds) := by
  induction limit generalizing s n with
  | zero =>
      rw [drain] at hdrain
      obtain ⟨-, hdrain⟩ := Option.ite_none_left_eq_some.1 hdrain
      obtain ⟨rfl, rfl⟩ := Prod.mk.inj (Option.some.inj hdrain)
      rfl
  | succ limit ih =>
      rw [drain_succ] at hdrain
      split at hdrain
      · split at hdrain
        · obtain ⟨⟨t, m⟩, hrest, heq⟩ := Option.map_eq_some_iff.1 hdrain
          obtain ⟨rfl, rfl⟩ := Prod.mk.inj heq
          have hrun := ih hrest
          exact hrun
        · obtain ⟨rfl, rfl⟩ := Prod.mk.inj (Option.some.inj hdrain)
          rfl
      · obtain ⟨rfl, rfl⟩ := Prod.mk.inj (Option.some.inj hdrain)
        rfl

/-- How many quanta it takes does not depend on who listens. -/
theorem Bounded.drain_hearing (h : s.Bounded doc) (nanoseconds limit : Nat)
    (listeners : List Nat) (mail : List (Nat × Extent)) :
    (Session.drain doc nanoseconds limit (s.hearing listeners mail)).map (·.2) =
      (Session.drain doc nanoseconds limit s).map (·.2) := by
  induction limit generalizing s mail with
  | zero =>
      show (if s.hasPendingWork then none else some (s.hearing listeners mail, 0)).map (·.2) =
        (if s.hasPendingWork then none else some (s, 0)).map (·.2)
      split <;> rfl
  | succ limit ih =>
      obtain ⟨told, htold⟩ := h.announces_runBackground nanoseconds
      have hquantum := htold.hears listeners mail
      have ih := ih (h.runBackground nanoseconds).bounded (mail ++ letters listeners told)
      have hpending : ∀ (t : Session) (mail : List (Nat × Extent)),
        (t.hearing listeners mail).hasPendingWork = t.hasPendingWork := fun _ _ => rfl
      rw [drain_succ, drain_succ, hquantum, hpending, hpending]
      split
      · split
        · rw [Option.map_map, Option.map_map]
          exact (Option.map_map _ Prod.snd _).symm.trans
            ((congrArg (Option.map (· + 1)) ih).trans (Option.map_map _ Prod.snd _))
        · rfl
      · rfl

/-- **Running until no work is left** does the same whoever listens. -/
theorem Bounded.drain_eq_some (h : s.Bounded doc) {s' : Session} {nanoseconds limit n : Nat}
    (hdrain : Session.drain doc nanoseconds limit s = some (s', n)) (listeners : List Nat)
    (mail : List (Nat × Extent)) :
    Session.drain doc nanoseconds limit (s.hearing listeners mail) =
      some ((s.hearing listeners mail).quanta doc (List.replicate n nanoseconds), n) := by
  -- it ends after as many quanta, and a run is told by their number
  have hcount := h.drain_hearing nanoseconds limit listeners mail
  rw [hdrain, Option.map_some] at hcount
  obtain ⟨⟨t, m⟩, hrun, hm⟩ := Option.map_eq_some_iff.1 hcount
  obtain rfl : m = n := hm
  rw [hrun, drain_eq_quanta hrun]

/-! ## Edits, and starting over -/

/-- Bringing the analysis in step touches the analysis and the schedule, whoever listens. -/
theorem announces_repair (s : Session) (doc : Document) (e : Edit) :
    Announces (·.repair doc e) s [] := by
  by_cases hregions : s.lexicon.hasRegions = true
  · cases hup : s.analysis.update? s.lexicon doc e s.settings.stepBudget with
    | some a =>
        have hframe : Announces (fun t : Session => { t with analysis := a }) s [] :=
          .quiet (fun _ _ => rfl) rfl rfl fun _ hx => hx
        refine hframe.of_eq ?_
        intro listeners mail
        have hon : (s.hearing listeners mail).lexicon.hasRegions = true := hregions
        have hsome : (s.hearing listeners mail).analysis.update? (s.hearing listeners mail).lexicon
          doc e (s.hearing listeners mail).settings.stepBudget = some a := hup
        rw [repair, if_pos hon, hsome]
    | none =>
        have hframe : Announces (fun t : Session =>
            { t with analysis := t.analysis.invalidate doc e, pacer := t.pacer.arm }) s [] :=
          .quiet (fun _ _ => rfl) rfl rfl fun _ hx => hx
        refine hframe.of_eq ?_
        intro listeners mail
        have hon : (s.hearing listeners mail).lexicon.hasRegions = true := hregions
        have hnone : (s.hearing listeners mail).analysis.update? (s.hearing listeners mail).lexicon
          doc e (s.hearing listeners mail).settings.stepBudget = none := hup
        rw [repair, if_pos hon, hnone]
  · exact (Announces.refl s).of_eq fun _ _ => if_neg hregions

theorem repair_dirty (s : Session) (doc : Document) (e : Edit) :
    (s.repair doc e).staleness = s.staleness := by
  rcases repair_cases s doc e with ⟨-, heq⟩ | ⟨-, ⟨a, -, heq⟩ | heq⟩ <;> rw [heq]

/-- **An edit** of a text whose highlighting is on marks its lines and tells them. -/
theorem announces_applyEdit (hdirty : s.staleness.dirty.Canonical) (doc : Document) (e : Edit) :
    ∃ told, Announces (·.applyEdit doc e) s told ∧
      (s.enabled = true → doc.snapToLines ⟨e.pos, e.newStop⟩ ∈ told) := by
  by_cases henabled : s.enabled = true
  · have hrepair := announces_repair s doc e
    have hstale : (s.repair doc e).staleness.dirty.Canonical := by
      rw [repair_dirty]
      exact hdirty
    have hmark := announces_disturb hstale (hrepair.enabled.trans henabled)
      (doc.snapToLines ⟨e.pos, e.newStop⟩)
    refine ⟨_, (hrepair.trans hmark).of_eq fun _ _ => if_pos henabled, ?_⟩
    intro _
    simp
  · exact ⟨[], (Announces.refl s).of_eq fun _ _ => if_neg henabled, fun hon => absurd hon henabled⟩

/-- **What an edit leaves dirty** has been dirty before, or lies in a range that is told: text that
    is put in is dirty only where something was. -/
theorem Bounded.announces_edit (h : s.Bounded doc)
    (hoff : s.enabled = false → ∀ x, x ∉ s.staleness.dirty) {e : Edit}
    (hedit : Edited doc.chars doc'.chars e) {staleness : Staleness}
    (hmoved : s.staleness.dirty.Carried staleness.dirty e) (paint : Paint) :
    ∃ told, Announces (·.applyEdit doc' e) { s with staleness, paint } told ∧
      ∀ x ∈ (Session.applyEdit { s with staleness, paint } doc' e).staleness.dirty,
        (∃ y ∈ s.staleness.dirty, e.image? y = some x) ∨
          s.enabled = true ∧ ∃ range ∈ told, x ∈ range := by
  have hcanonical := (hmoved.upto doc.length (doc.length_eq ▸ hedit.inside) h.upto).canonical
  obtain ⟨told, htold, hlines⟩ :=
    announces_applyEdit (s := { s with staleness, paint }) hcanonical doc' e
  refine ⟨told, htold, ?_⟩
  intro x hx
  rcases htold.dirty x hx with hx | hx
  · rcases hmoved.source x hx with ⟨hx, hlt⟩ | ⟨hpos, hlt, y, hy⟩ | ⟨y, hy, hle, rfl⟩
    · exact .inl ⟨x, hx, if_pos hlt⟩
    · -- in the text that is put in: it stands on the lines that are told
      cases henabled : s.enabled with
      | true =>
          have hnew : e.newStop ≤ doc'.length := doc'.length_eq ▸ hedit.newStop_le
          have hin := mem_snapToLines hnew (e := ⟨e.pos, e.newStop⟩) ⟨hpos, hlt⟩
          exact .inr ⟨rfl, _, hlines henabled, hin.1⟩
      | false => exact absurd hy (hoff henabled y)
    · refine .inl ⟨y, hy, ?_⟩
      have hstops := e.stops
      rw [Edit.image?, if_neg (by omega), if_pos hle]
  · exact .inr hx

theorem announces_notify (s : Session) (e : Extent) : Announces (·.notify e) s [e] := by
  refine ⟨⟨?_, rfl⟩, rfl, fun x hx => .inl hx⟩
  intro listeners mail
  rw [letters_singleton]
  rfl

/-- The session with no analysis, no paint and nothing dirty. -/
def restarted (s : Session) : Session :=
  { s with analysis := .fresh, paint := .empty, staleness := s.staleness.clearDirty }

/-- To start over is to disturb the whole text, if the session is on. -/
theorem rebuild_eq (s : Session) (doc : Document) :
    s.rebuild doc =
      if s.enabled then Session.disturb { s.restarted with pacer := s.pacer.arm } ⟨0, doc.length⟩
      else s.restarted.notify ⟨0, doc.length⟩ := by
  rw [rebuild]
  dsimp only
  split <;> rfl

/-- **Starting over** tells the whole text. -/
theorem announces_rebuild (s : Session) (doc : Document) :
    Announces (·.rebuild doc) s [⟨0, doc.length⟩] := by
  by_cases henabled : s.enabled = true
  · have hdropped : Announces (fun t => { t.restarted with pacer := t.pacer.arm }) s [] :=
      .quiet (fun _ _ => rfl) rfl rfl fun _ hx => absurd hx ExtentSet.not_mem_empty
    have hmark := announces_disturb (s := { s.restarted with pacer := s.pacer.arm })
      ExtentSet.canonical_empty henabled ⟨0, doc.length⟩
    refine (hdropped.trans hmark).of_eq ?_
    intro listeners mail
    rw [rebuild_eq]
    exact if_pos henabled
  · have hdropped : Announces restarted s [] :=
      .quiet (fun _ _ => rfl) rfl rfl fun _ hx => absurd hx ExtentSet.not_mem_empty
    refine (hdropped.trans (announces_notify _ ⟨0, doc.length⟩)).of_eq ?_
    intro listeners mail
    rw [rebuild_eq]
    exact if_neg henabled

/-- The session when it is off, with nothing pending. -/
def switchedOff (s : Session) : Session :=
  { s with
    enabled := false, pacer := s.pacer.cancel, paint := .empty, staleness := s.staleness.clearDirty }

/-- **Switching** tells the whole text, unless there is nothing to switch.  A session that is off
    has nothing dirty, so what is dirty behind it has been marked while starting over. -/
theorem tells_setEnabled (hoff : s.enabled = false → ∀ x, x ∉ s.staleness.dirty)
    (doc : Document) (on : Bool) :
    ∃ told, Tells (·.setEnabled doc on) s told ∧
      ∀ x ∈ (s.setEnabled doc on).staleness.dirty,
        (s.setEnabled doc on).enabled = s.enabled ∧ x ∈ s.staleness.dirty ∨
          (s.setEnabled doc on).enabled = true ∧ ∃ e ∈ told, x ∈ e := by
  by_cases hsame : on = s.enabled
  · have hidle : s.setEnabled doc on = s := if_pos hsame
    refine ⟨[], (Announces.refl s).toTells.of_eq fun _ _ => if_pos hsame, ?_⟩
    intro x hx
    rw [hidle] at hx ⊢
    exact .inl ⟨rfl, hx⟩
  · cases on with
    | true =>
        have hset : s.setEnabled doc true = Session.rebuild { s with enabled := true } doc :=
          if_neg hsame
        have hrebuild := announces_rebuild { s with enabled := true } doc
        have htells : Tells (fun t => Session.rebuild { t with enabled := true } doc) s
            [⟨0, doc.length⟩] := ⟨hrebuild.hears, hrebuild.next⟩
        refine ⟨_, htells.of_eq fun _ _ => if_neg hsame, ?_⟩
        intro x hx
        rw [hset] at hx ⊢
        rcases hrebuild.dirty x hx with hx | ⟨-, hx⟩
        · exact absurd hx (hoff (Bool.eq_false_iff.2 (Ne.symm hsame)) x)
        · exact .inr ⟨hrebuild.enabled, hx⟩
    | false =>
        have hset : s.setEnabled doc false = s.switchedOff.notify ⟨0, doc.length⟩ := if_neg hsame
        have hnotify := announces_notify s.switchedOff ⟨0, doc.length⟩
        have htells : Tells (fun t => t.switchedOff.notify ⟨0, doc.length⟩) s [⟨0, doc.length⟩] :=
          ⟨hnotify.hears, hnotify.next⟩
        refine ⟨_, htells.of_eq fun _ _ => if_neg hsame, ?_⟩
        intro x hx
        rw [hset] at hx
        exact absurd hx ExtentSet.not_mem_empty

end Session

end Highlighter
