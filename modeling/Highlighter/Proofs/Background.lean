import Highlighter.Proofs.Reachable

/-! # Background work — every quantum counts

    A quantum on schedule completes the table, takes back what was set aside or gets further
    (`Bounded.quantum`).  So analysis ends after finitely many, whatever other calls are made
    between them.  A quantum that leaves the table complete takes it off the schedule and
    renders all that is wanted, and then nothing is pending (`Bounded.settled`).

    What is left are buffers for which no grammar has been set.  An edit makes lines stale in
    them, but it schedules nothing, as there is nothing to find; and rendering does not go
    past the frontier.  Once a view wants those lines, every quantum leaves the buffer as it
    is, with work pending (`Stranded`).  All other buffers drain. -/

namespace Highlighter

/-- With no calls left the table is complete. -/
theorem Analysis.isComplete_of_callsLeft {a : Analysis} {doc : Document}
    (hwithin : a.Within doc.length) (hzero : a.callsLeft doc = 0) : a.table.isComplete = true := by
  rw [Analysis.callsLeft] at hzero
  cases hf : a.table.frontier with
  | none => rw [BoundaryTable.isComplete, hf]; rfl
  | some f =>
      have hle := hwithin.table f hf
      rw [hf] at hzero
      simp only at hzero
      omega

/-- A complete table leaves no calls to make. -/
theorem Analysis.callsLeft_of_isComplete {a : Analysis} (h : a.table.isComplete = true)
    (doc : Document) : a.callsLeft doc = 0 := by
  rw [Analysis.callsLeft, Option.isNone_iff_eq_none.1 h]

namespace Session

variable {s : Session} {doc : Document}

/-! ## One quantum -/

/-- Rendering touches neither the analysis nor the pacer. -/
theorem renderUpTo_frame (s : Session) (doc : Document) (reach : Nat) (range : Extent) :
    (s.renderUpTo doc reach range).analysis = s.analysis ∧
      (s.renderUpTo doc reach range).pacer = s.pacer := by
  rw [renderUpTo]
  split
  · exact ⟨rfl, rfl⟩
  · exact ⟨rfl, rfl⟩

/-- Rendering leaves all but the stale offsets and the paint as it is. -/
theorem renderRequested_frame (s : Session) (doc : Document) :
    (s.renderRequested doc).analysis = s.analysis ∧ (s.renderRequested doc).pacer = s.pacer := by
  rw [renderRequested_eq]
  refine List.foldlRecOn
    (motive := fun t : Session => t.analysis = s.analysis ∧ t.pacer = s.pacer) _ _ ⟨rfl, rfl⟩
    fun t ht range _ => ?_
  obtain ⟨hanalysis, hpacer⟩ := renderUpTo_frame t doc (s.analysis.table.reach doc.length) range
  exact ⟨hanalysis.trans ht.1, hpacer.trans ht.2⟩

theorem retire_analysis (s : Session) : s.retire.analysis = s.analysis := by
  rw [retire]
  split <;> rfl

/-- With the table complete the pacer is put away. -/
theorem retire_unarmed (hdone : s.analysis.table.isComplete = true) :
    s.retire.pacer.armed = false := by
  rw [retire, if_pos hdone]
  rfl

/-- The analysis after a quantum on schedule. -/
theorem analysis_runBackground (henabled : s.enabled = true) (harmed : s.pacer.armed = true)
    (nanoseconds : Nat) : (s.runBackground doc nanoseconds).1.analysis =
      ((s.analysis.build s.lexicon doc s.pacer.batch).map (·.1)).getD s.analysis := by
  rw [runBackground, if_pos henabled]
  show ((s.analyzeScheduled doc nanoseconds).renderRequested doc).analysis = _
  rw [(renderRequested_frame _ doc).1, analyzeScheduled_eq, if_pos harmed, retire_analysis,
    analyzeTimed, analyzeBatch]
  cases s.analysis.build s.lexicon doc s.pacer.batch with
  | none => rfl
  | some built =>
      obtain ⟨a, report⟩ := built
      exact (keeps_analyzed _ doc report.range).2

/-- **A quantum on schedule** makes progress, or the table has been complete. -/
theorem Bounded.quantum (h : s.Bounded doc) (henabled : s.enabled = true)
    (harmed : s.pacer.armed = true) (nanoseconds : Nat) :
    (s.runBackground doc nanoseconds).1.analysis.table.isComplete = true ∨
      ∃ report, (s.analysis.build s.lexicon doc s.pacer.batch).map (·.2) = some report ∧
        s.analysis.Advances (s.runBackground doc nanoseconds).1.analysis report ∧
          (s.runBackground doc nanoseconds).1.analysis.callsLeft doc < s.analysis.callsLeft doc := by
  rw [analysis_runBackground henabled harmed]
  cases hbuild : s.analysis.build s.lexicon doc s.pacer.batch with
  | none => exact .inl (congrArg Option.isNone (h.frontier_eq_none henabled hbuild))
  | some built =>
      obtain ⟨a, report⟩ := built
      obtain ⟨-, hadvances, hless⟩ := h.batch henabled hbuild (rfl : s.pacer.armed = s.pacer.armed)
      exact .inr ⟨report, rfl, hadvances, hless⟩

/-! ## Nothing left -/

/-- Rendering a range leaves nothing stale there, and no wanted range is given up. -/
theorem Bounded.renderStale_clean (h : s.Bounded doc) (range : Extent) :
    (∀ x ∈ (s.renderStale doc range).staleness.dirty, x ∈ s.staleness.dirty ∧ x ∉ range) ∧
      (s.renderStale doc range).staleness.requested = s.staleness.requested :=
  Staleness.refresh_clean h.upto.canonical s.paint

/-- The pending parts hold something, inside the text. -/
theorem Bounded.mem_pending (h : s.Bounded doc) {part : Extent} (hpart : part ∈ s.staleness.pending) :
    part.start < part.stop ∧ part.stop ≤ doc.length := by
  obtain ⟨wanted, -, hpart⟩ := List.mem_flatMap.1 hpart
  obtain ⟨hlt, -, -, f, hf, hle⟩ := ExtentSet.part_of_mem_within hpart
  exact ⟨hlt, Nat.le_trans hle (h.upto.stop_le hf)⟩

/-- Nothing is pending when no pending part has anything stale left. -/
theorem pending_eq_nil {t t' : Staleness} (hcanonical : t.dirty.Canonical)
    (hrequested : t'.requested = t.requested)
    (hclean : ∀ x ∈ t'.dirty, x ∈ t.dirty ∧ ∀ part ∈ t.pending, x ∉ part) : t'.pending = [] := by
  refine List.eq_nil_iff_forall_not_mem.2 ?_
  intro part hpart
  obtain ⟨wanted, hwanted, hpart⟩ := List.mem_flatMap.1 hpart
  -- the first offset of the part would be one of a part that was rendered
  obtain ⟨-, f, hf, rfl⟩ := ExtentSet.exists_of_mem_within hpart
  obtain ⟨hlt, hstart, hstop, -⟩ := ExtentSet.part_of_mem_within hpart
  have hdirty : (f.clip wanted).start ∈ t'.dirty := by
    refine ⟨f, hf, Nat.le_max_left _ _, Nat.lt_of_lt_of_le hlt (Nat.min_le_left _ _)⟩
  obtain ⟨hstale, hnone⟩ := hclean _ hdirty
  obtain ⟨part', hpart', hin⟩ := hcanonical.exists_part hstale
    (e := wanted) ⟨hstart, Nat.lt_of_lt_of_le hlt hstop⟩
  exact hnone part' (List.mem_flatMap.2 ⟨wanted, hrequested ▸ hwanted, hpart'⟩) hin

/-- A range within reach is rendered as a whole. -/
theorem renderUpTo_of_le {reach : Nat} {range : Extent} (hlt : range.start < range.stop)
    (hle : range.stop ≤ reach) : s.renderUpTo doc reach range = s.renderStale doc range := by
  rw [renderUpTo, Nat.min_eq_left hle, if_pos hlt]

theorem renderUpTo_zero {range : Extent} : s.renderUpTo doc 0 range = s := by
  rw [renderUpTo, Nat.min_zero, if_neg (Nat.not_lt_zero _)]

/-- Rendering ranges one after the other leaves nothing stale in any of them. -/
theorem Bounded.renderRanges_clean (h : s.Bounded doc) (henabled : s.enabled = true)
    {ranges : List Extent}
    (hranges : ∀ range ∈ ranges, range.start < range.stop ∧ range.stop ≤ doc.length) :
    (∀ x ∈ (ranges.foldl (Session.renderUpTo doc doc.length) s).staleness.dirty,
        x ∈ s.staleness.dirty ∧ ∀ range ∈ ranges, x ∉ range) ∧
      (ranges.foldl (Session.renderUpTo doc doc.length) s).staleness.requested =
        s.staleness.requested := by
  induction ranges generalizing s with
  | nil => exact ⟨fun x hx => ⟨hx, by simp⟩, rfl⟩
  | cons range rest ih =>
      obtain ⟨⟨hlt, hle⟩, hrest⟩ := List.forall_mem_cons.1 hranges
      have hwork := h.renderStale henabled range
      obtain ⟨hclean, hrequested⟩ := h.renderStale_clean range
      obtain ⟨hmore, hrequested'⟩ :=
        ih hwork.bounded (hwork.keeps.enabled.trans henabled) hrest
      rw [List.foldl_cons, renderUpTo_of_le hlt hle]
      refine ⟨?_, hrequested'.trans hrequested⟩
      intro x hx
      obtain ⟨hx, hout⟩ := hmore x hx
      obtain ⟨hx, hhere⟩ := hclean x hx
      exact ⟨hx, List.forall_mem_cons.2 ⟨hhere, hout⟩⟩

/-- **With a complete table** all that is wanted gets rendered. -/
theorem Bounded.renderRequested_clean (h : s.Bounded doc) (henabled : s.enabled = true)
    (hcomplete : s.analysis.table.isComplete = true) :
    (s.renderRequested doc).staleness.pending = [] := by
  have hreach : s.analysis.table.reach doc.length = doc.length :=
    BoundaryTable.reach_of_none (Option.isNone_iff_eq_none.1 hcomplete) _
  -- nothing lies past the frontier of a complete table, so no pending part is left out
  obtain ⟨hclean, hrequested⟩ := h.renderRanges_clean henabled fun _ => h.mem_pending
  rw [renderRequested_eq, hreach]
  exact pending_eq_nil h.upto.canonical hrequested hclean

/-- **A quantum that leaves the table complete** leaves no work. -/
theorem Bounded.settled (h : s.Bounded doc) (henabled : s.enabled = true) (nanoseconds : Nat)
    (hcomplete : (s.runBackground doc nanoseconds).1.analysis.table.isComplete = true) :
    (s.runBackground doc nanoseconds).1.hasPendingWork = false := by
  have hwork := h.analyzeScheduled henabled nanoseconds
  have hon := hwork.keeps.enabled.trans henabled
  rw [Session.runBackground, if_pos henabled] at hcomplete ⊢
  have hcomplete : ((s.analyzeScheduled doc nanoseconds).renderRequested doc).analysis.table.isComplete =
      true := hcomplete
  rw [(renderRequested_frame _ doc).1] at hcomplete
  have hunarmed : (s.analyzeScheduled doc nanoseconds).pacer.armed = false := by
    rw [analyzeScheduled_eq] at hcomplete ⊢
    split
    · rename_i harmed
      rw [if_pos harmed, retire_analysis] at hcomplete
      exact retire_unarmed hcomplete
    · rename_i hoff
      exact Bool.eq_false_iff.2 hoff
  show ((s.analyzeScheduled doc nanoseconds).renderRequested doc).hasPendingWork = false
  rw [hasPendingWork, (renderRequested_frame _ doc).2, hunarmed,
    hwork.bounded.renderRequested_clean hon hcomplete]
  simp

/-- With no work left a quantum does nothing. -/
theorem runBackground_of_idle (hidle : s.hasPendingWork = false) (nanoseconds : Nat) :
    s.runBackground doc nanoseconds = (s, false) := by
  rw [runBackground]
  split
  · rename_i henabled
    rw [hasPendingWork, henabled, Bool.true_and, Bool.or_eq_false_iff] at hidle
    obtain ⟨hunarmed, hnone⟩ := hidle
    have hpending : s.staleness.pending = [] := by simpa using hnone
    have hscheduled : s.analyzeScheduled doc nanoseconds = s := by
      rw [analyzeScheduled, if_neg (by rw [hunarmed]; decide)]
    have hrendered : s.renderRequested doc = s := by
      rw [renderRequested, hpending]
      rfl
    dsimp only
    rw [hscheduled, hrendered, hasPendingWork, hunarmed, hpending]
    simp
  · rfl

/-! ## Many quanta -/

/-- Quanta of the given lengths, one after the other. -/
def quanta (doc : Document) (times : List Nat) (s : Session) : Session :=
  times.foldl (fun s nanoseconds => (s.runBackground doc nanoseconds).1) s

/-- With no pending work no quantum does anything. -/
theorem quanta_of_idle (hidle : s.hasPendingWork = false) (times : List Nat) :
    s.quanta doc times = s := by
  induction times with
  | nil => rfl
  | cons nanoseconds rest ih =>
      rw [quanta, List.foldl_cons, runBackground_of_idle hidle]
      exact ih

/-- **A session on schedule drains**, and so does one whose table is complete. -/
theorem Bounded.drains (h : s.Bounded doc) (henabled : s.enabled = true)
    (hlive : s.analysis.table.isComplete = false → s.pacer.armed = true) (times : List Nat)
    (hmany : s.analysis.callsLeft doc < times.length) :
    (s.quanta doc times).hasPendingWork = false := by
  induction times generalizing s with
  | nil => exact absurd hmany (Nat.not_lt_zero _)
  | cons nanoseconds rest ih =>
      have hwork := h.runBackground nanoseconds
      rw [quanta, List.foldl_cons]
      -- a quantum that does not complete the table takes one of the calls that are left
      cases hdone : (s.runBackground doc nanoseconds).1.analysis.table.isComplete with
      | true =>
          have hidle := h.settled henabled nanoseconds hdone
          show (quanta doc rest _).hasPendingWork = false
          rwa [quanta_of_idle hidle]
      | false =>
          have harmed := hlive (hwork.incomplete hdone)
          rcases h.quantum henabled harmed nanoseconds with hcomplete | ⟨report, -, -, hless⟩
          · exact absurd (hcomplete.symm.trans hdone) (by decide)
          · refine ih hwork.bounded (hwork.keeps.enabled.trans henabled) ?_ ?_
            · intro _
              rwa [hwork.schedule hdone]
            · rw [List.length_cons] at hmany
              omega

/-- The loop that drains a session ends when as many quanta as it may take leave no work. -/
theorem drain_isSome {nanoseconds n : Nat}
    (hidle : (s.quanta doc (List.replicate n nanoseconds)).hasPendingWork = false) :
    (drain doc nanoseconds n s).isSome = true := by
  induction n generalizing s with
  | zero =>
      rw [drain, if_neg (by rw [show s.hasPendingWork = false from hidle]; decide)]
      rfl
  | succ n ih =>
      rw [drain]
      split
      · rw [List.replicate_succ, quanta, List.foldl_cons] at hidle
        have ih := ih (s := (s.runBackground doc nanoseconds).1) hidle
        generalize s.runBackground doc nanoseconds = quantum at ih ⊢
        obtain ⟨t, more⟩ := quantum
        cases more with
        | true => simpa using ih
        | false => rfl
      · rfl

/-- The call is a quantum. -/
def Call.isQuantum : Call → Bool
  | .runBackground _ => true
  | _ => false

/-- Every call leaves no more to do, and a quantum less while there is any. -/
theorem Bounded.call_callsLeft (h : s.Bounded doc) (henabled : s.enabled = true)
    (hlive : s.analysis.table.isComplete = false → s.pacer.armed = true) (c : Call) :
    (c.apply doc s).analysis.callsLeft doc ≤
      s.analysis.callsLeft doc - if c.isQuantum then 1 else 0 := by
  have hwork := h.call c
  cases hopen : s.analysis.table.isComplete with
  | true =>
      rw [Analysis.callsLeft_of_isComplete (hwork.complete hopen)]
      exact Nat.zero_le _
  | false =>
      cases c with
      | runBackground nanoseconds =>
          show (s.runBackground doc nanoseconds).1.analysis.callsLeft doc ≤ _ - 1
          rcases h.quantum henabled (hlive hopen) nanoseconds with hdone | ⟨report, -, -, hless⟩
          · rw [Analysis.callsLeft_of_isComplete hdone]
            exact Nat.zero_le _
          · omega
      | highlight => exact hwork.nearer
      | ensureHighlighted => exact hwork.nearer
      | request => exact hwork.nearer
      | clearRequested => exact hwork.nearer
      | matchingBracket => exact hwork.nearer

/-- **Analysis ends** after enough quanta, whatever other calls are made between them. -/
theorem Bounded.completes (h : s.Bounded doc) (henabled : s.enabled = true)
    (hlive : s.analysis.table.isComplete = false → s.pacer.armed = true) (calls : List Call)
    (hmany : s.analysis.callsLeft doc ≤ calls.countP Call.isQuantum) :
    (calls.foldl (Call.apply doc) s).analysis.table.isComplete = true := by
  induction calls generalizing s with
  | nil => exact Analysis.isComplete_of_callsLeft (h.analysis henabled) (Nat.le_zero.1 hmany)
  | cons c rest ih =>
      have hwork := h.call c
      have hless := h.call_callsLeft henabled hlive c
      rw [List.foldl_cons]
      refine ih hwork.bounded (hwork.keeps.enabled.trans henabled) ?_ ?_
      · intro hleft
        rw [hwork.schedule hleft]
        exact hlive (hwork.incomplete hleft)
      · rw [List.countP_cons] at hmany
        omega

end Session

namespace Buffer

variable {b : Buffer}

/-! ## What is never lost -/

/-- Background work that a buffer owes is scheduled, stays inside the text, and gets done. -/
structure KeepsWork (b : Buffer) : Prop where
  /-- Once a grammar has been set, a table that is not complete is scheduled. -/
  scheduled : b.session.enabled = true → b.language.isSome = true →
    b.session.analysis.table.isComplete = false →
      b.session.pacer.armed = true ∧ b.session.hasPendingWork = true
  /-- Stale ranges are ranges of the text. -/
  inside : ∀ e ∈ b.session.staleness.dirty.extents, e.start < e.stop ∧ e.stop ≤ b.length
  /-- A quantum on schedule leaves the table complete, or makes progress. -/
  advances : b.session.pacer.armed = true → ∀ nanoseconds,
    (b.runBackground nanoseconds).1.session.analysis.table.isComplete = true ∨
      ∃ report, (b.session.analysis.build b.session.lexicon b.document b.session.pacer.batch).map
          (·.2) = some report ∧
        b.session.analysis.Advances (b.runBackground nanoseconds).1.session.analysis report
  /-- Without edits, quanta complete the table. -/
  completes : b.session.pacer.armed = true → ∀ calls : List Session.Call,
    Session.roundLimit b.document ≤ calls.countP Session.Call.isQuantum →
      (calls.foldl (Session.Call.apply b.document) b.session).analysis.table.isComplete = true

/-- **No background work is lost**, whatever the operations. -/
theorem Reachable.keepsWork (h : b.Reachable) : b.KeepsWork := by
  obtain ⟨hbounded, hon, hscheduled, -⟩ := h.tended
  refine ⟨?_, fun e he =>
    ⟨hbounded.upto.canonical.full e he, hbounded.upto.stop_le he⟩,
    ?_, ?_⟩
  · intro henabled hnamed hleft
    have harmed := hscheduled hnamed henabled hleft
    refine ⟨harmed, ?_⟩
    rw [Session.hasPendingWork, henabled, harmed]
    rfl
  · intro harmed nanoseconds
    rcases hbounded.quantum (hon harmed) harmed nanoseconds with hdone | ⟨report, hreport, hadvances, -⟩
    · exact .inl hdone
    · exact .inr ⟨report, hreport, hadvances⟩
  · intro harmed calls hmany
    exact hbounded.completes (hon harmed) (fun _ => harmed) calls
      (Nat.le_trans (Session.callsLeft_le _ _) hmany)

/-- A buffer whose text came after its grammar. -/
theorem keepsWork_twoLines : Reachable twoLines ∧ KeepsWork twoLines :=
  ⟨reachable_twoLines, reachable_twoLines.keepsWork⟩

/-! ## Buffers that do not drain -/

/-- No grammar has been set, nothing is scheduled, and yet a wanted range is stale. -/
structure Stranded (b : Buffer) : Prop where
  enabled    : b.session.enabled = true
  unnamed    : b.language = none
  unarmed    : b.session.pacer.armed = false
  incomplete : b.session.analysis.table.isComplete = false
  pending    : b.session.staleness.pending ≠ []

/-- A stranded buffer has pending work. -/
theorem Stranded.hasPendingWork (h : b.Stranded) : b.session.hasPendingWork = true := by
  rw [Session.hasPendingWork, h.enabled, h.unarmed]
  simpa using h.pending

/-- **A quantum leaves a stranded buffer as it is**, with work pending: nothing is analyzed, so
    nothing can be rendered. -/
theorem Stranded.runBackground (h : b.Stranded) (htended : b.Tended) (nanoseconds : Nat) :
    b.runBackground nanoseconds = (b, true) := by
  -- without regions nothing has been analyzed yet, as the table is not complete
  have hreach : b.session.analysis.table.reach b.document.length = 0 := by
    rcases htended.bounded.quiet (htended.plain h.unnamed) with hfresh | hcomplete
    · rw [hfresh]
      rfl
    · exact absurd h.incomplete (by rw [hcomplete]; decide)
  have hscheduled : b.session.analyzeScheduled b.document nanoseconds = b.session := by
    rw [Session.analyzeScheduled, if_neg (by rw [h.unarmed]; decide)]
  have hrendered : b.session.renderRequested b.document = b.session := by
    rw [Session.renderRequested_eq, hreach]
    refine List.foldlRecOn (motive := (· = b.session)) _ _ rfl ?_
    rintro t rfl range -
    exact Session.renderUpTo_zero
  have hquantum : b.session.runBackground b.document nanoseconds = (b.session, true) := by
    rw [Session.runBackground, if_pos h.enabled]
    dsimp only
    rw [hscheduled, hrendered, h.hasPendingWork]
  rw [Buffer.runBackground, hquantum]

/-- No number of quanta moves a stranded buffer. -/
theorem Stranded.run (h : b.Stranded) (htended : b.Tended) (times : List Nat) :
    b.run (times.map Op.runBackground) = b := by
  induction times with
  | nil => rfl
  | cons nanoseconds rest ih =>
      show (b.runBackground nanoseconds).1.run (rest.map Op.runBackground) = b
      rw [h.runBackground htended]
      exact ih

/-- A stranded buffer is never drained. -/
theorem Stranded.drain (h : b.Stranded) (htended : b.Tended) (nanoseconds n : Nat) :
    b.session.drain b.document nanoseconds n = none := by
  have hquantum : b.session.runBackground b.document nanoseconds = (b.session, true) := by
    have hsame := h.runBackground htended nanoseconds
    rw [Prod.ext_iff] at hsame ⊢
    exact ⟨congrArg Buffer.session hsame.1, hsame.2⟩
  induction n with
  | zero => rw [Session.drain, if_pos h.hasPendingWork]
  | succ n ih =>
      rw [Session.drain, if_pos h.hasPendingWork, hquantum]
      simp only
      rw [ih]
      rfl

/-- Quanta of a buffer are those of its session. -/
theorem run_runBackground (b : Buffer) (times : List Nat) :
    b.run (times.map Op.runBackground) =
      { b with session := b.session.quanta b.document times } := by
  induction times generalizing b with
  | nil => rfl
  | cons nanoseconds rest ih =>
      show (b.runBackground nanoseconds).1.run (rest.map Op.runBackground) = _
      rw [ih]
      rfl

/-- A buffer that is not stranded has scheduled what is left to do, or has nothing to do. -/
theorem Tended.live (h : b.Tended) (hnot : ¬b.Stranded) (henabled : b.session.enabled = true)
    (hwork : b.session.hasPendingWork = true) :
    b.session.analysis.table.isComplete = false → b.session.pacer.armed = true := by
  intro hleft
  cases hnamed : b.language with
  | some name => exact h.scheduled (by rw [hnamed]; rfl) henabled hleft
  | none =>
      by_cases harmed : b.session.pacer.armed = true
      · exact harmed
      · refine absurd ⟨henabled, hnamed, Bool.eq_false_iff.2 harmed, hleft, ?_⟩ hnot
        intro hnone
        rw [Session.hasPendingWork, henabled, Bool.eq_false_iff.2 harmed, hnone] at hwork
        exact absurd hwork (by decide)

/-- Enough quanta drain a buffer that is not stranded. -/
theorem Tended.drains (h : b.Tended) (hnot : ¬b.Stranded) (times : List Nat)
    (hmany : b.quantumLimit ≤ times.length) :
    (b.session.quanta b.document times).hasPendingWork = false := by
  cases hwork : b.session.hasPendingWork with
  | false => rwa [Session.quanta_of_idle hwork]
  | true =>
      have henabled : b.session.enabled = true := by
        rw [Session.hasPendingWork] at hwork
        exact (Bool.and_eq_true_iff.1 hwork).1
      have hleft := Session.callsLeft_le b.session.analysis b.document
      have hlimit : b.quantumLimit = Session.roundLimit b.document + 2 := rfl
      exact h.bounded.drains henabled (h.live hnot henabled hwork) times (by omega)

/-- **A buffer drains exactly when it is not stranded.**  Then as many quanta as batches, of any
    lengths, leave no work pending, and the loop that drains it ends.  In a stranded buffer no
    quantum ever does anything, and the loop does not end however many it may take. -/
theorem drains_iff_not_stranded (h : b.Reachable) :
    ((∀ times : List Nat, b.quantumLimit ≤ times.length →
        (b.run (times.map Op.runBackground)).session.hasPendingWork = false) ↔ ¬b.Stranded) ∧
      (∀ nanoseconds, (b.runUntilIdle nanoseconds).isSome = true ↔ ¬b.Stranded) ∧
      (b.Stranded → ∀ nanoseconds, b.runBackground nanoseconds = (b, true) ∧
        ∀ n, b.session.drain b.document nanoseconds n = none) := by
  have htended := h.tended
  refine ⟨⟨?_, ?_⟩, fun nanoseconds =>
    ⟨?_, ?_⟩, fun hstranded nanoseconds =>
    ⟨hstranded.runBackground htended nanoseconds, hstranded.drain htended nanoseconds⟩⟩
  · intro hall hstranded
    have hidle := hall (List.replicate b.quantumLimit 0) (by simp)
    rw [hstranded.run htended] at hidle
    exact absurd (hstranded.hasPendingWork.symm.trans hidle) (by decide)
  · intro hnot times hmany
    rw [run_runBackground]
    exact htended.drains hnot times hmany
  · intro hsome hstranded
    rw [runUntilIdle, hstranded.drain htended] at hsome
    exact absurd hsome Bool.false_ne_true
  · intro hnot
    rw [runUntilIdle, Option.isSome_map]
    exact Session.drain_isSome (htended.drains hnot _ (by simp))

/-- A buffer with a grammar. -/
theorem drains_iff_not_stranded_twoLines : Reachable twoLines ∧
    ((∀ times : List Nat, twoLines.quantumLimit ≤ times.length →
        (twoLines.run (times.map Op.runBackground)).session.hasPendingWork = false) ↔
      ¬twoLines.Stranded) :=
  ⟨reachable_twoLines, (drains_iff_not_stranded reachable_twoLines).1⟩

/-- A buffer without a grammar that gets a char, which a view wants to see. -/
def lone : Buffer := ((new "notes" {}).insert 0 #['a']).request ⟨0, 1⟩

/-- **A char that is wanted in a buffer without a grammar** keeps background work going for ever. -/
theorem stranded_lone :
    lone.Reachable ∧ lone.Stranded ∧ ∀ nanoseconds, lone.runUntilIdle nanoseconds = none := by
  have hreachable : lone.Reachable :=
    .op (.op (.ofText "notes" .empty {}) (.change (.insert 0 #['a']))) (.request ⟨0, 1⟩)
  have hstranded : lone.Stranded := ⟨rfl, rfl, rfl, rfl, by decide +kernel⟩
  refine ⟨hreachable, hstranded, ?_⟩
  intro nanoseconds
  rw [runUntilIdle, hstranded.drain hreachable.tended]
  rfl

end Buffer

end Highlighter
