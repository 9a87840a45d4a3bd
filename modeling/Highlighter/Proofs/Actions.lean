import Highlighter.Proofs.Notices

/-! # Actions — all that a buffer can be asked to do

    Reading, changing, switching, saving and listening are one type of actions, so that what
    holds of every one of them is said once.  An action announces what it makes dirty
    (`Action.exists_announces`), by what its session announces; so nothing a buffer is asked
    to do makes an offset dirty that no listener is told of (`dirty_told`). -/

namespace Highlighter

namespace Buffer

variable {b b' : Buffer} {ranges : List Extent}

/-- The buffer with other listeners and other mail. -/
def hearing (b : Buffer) (listeners : List Nat) (mail : List (Nat × Extent)) : Buffer :=
  { b with session := b.session.hearing listeners mail }

/-- All that a buffer can be asked to do. -/
inductive Action where
  | op (o : Op)
  /-- Its session is called with its own text. -/
  | call (c : Session.Call)
  /-- Background quanta of these lengths, one after the other. -/
  | quanta (times : List Nat)
  | runUntilIdle (nanoseconds : Nat)
  | setGrammar (g : Grammar)
  | setLanguage (catalog : Catalog) (name : String)
  | detectLanguage (catalog : Catalog)
  | setHighlighting (on : Bool)
  | setModified (on : Bool)
  | save
  | connect
  | disconnect (listener : Nat)

namespace Action

/-- The buffer after an action, none when the action does not end; one that fails leaves the buffer
    as it is. -/
def perform? (b : Buffer) : Action → Option Buffer
  | op o => some (o.apply b)
  | call c => some { b with session := c.apply b.document b.session }
  | quanta times => some { b with session := b.session.quanta b.document times }
  | runUntilIdle nanoseconds => (b.runUntilIdle nanoseconds).map (·.1)
  | setGrammar g => some (b.setGrammar g)
  | setLanguage catalog name => some ((b.setLanguage catalog name).toOption.getD b)
  | detectLanguage catalog => some (b.detectLanguage catalog).1
  | setHighlighting on => some (b.setHighlighting on)
  | setModified on => some { b with modified := on }
  | save => some ((b.save.toOption.map (·.1)).getD b)
  | connect => some { b with session := b.session.connect.1 }
  | disconnect listener => some { b with session := (b.session.disconnect listener).1 }

/-- The edit that an action makes, if any. -/
def edit? (b : Buffer) : Action → Option Edit
  | op (.change c) => some (c.edit b.document)
  | _ => none

/-- Where an action takes an offset of the text before it. -/
def image? (b : Buffer) (a : Action) (o : Nat) : Option Nat :=
  match a.edit? b with
  | some e => e.image? o
  | none => some o

/-- The ranges that an action tells: what a lone listener hears. -/
def told (b : Buffer) (a : Action) : List Extent :=
  match a.perform? (b.hearing [0] []) with
  | some b' => b'.session.mail.map (·.2)
  | none => []

/-- Who listens after an action. -/
def listeners (b : Buffer) (before : List Nat) : Action → List Nat
  | connect => before ++ [b.session.nextListener]
  | disconnect listener => before.filter (· != listener)
  | _ => before

/-- The number of the next listener after an action. -/
def nextListener (b : Buffer) : Action → Nat
  | connect => b.session.nextListener + 1
  | _ => b.session.nextListener

/-- What an action does is the same whoever listens; what it makes dirty lies in a range that it
    tells, and the rest has been dirty before. -/
structure Announces (a : Action) (b b' : Buffer) (ranges : List Extent) : Prop where
  hears : ∀ listeners mail, a.perform? (b.hearing listeners mail) =
    some (b'.hearing (a.listeners b listeners) (mail ++ Session.letters listeners ranges))
  next  : b'.session.nextListener = a.nextListener b
  dirty : ∀ x ∈ b'.session.staleness.dirty,
    (b'.session.enabled = b.session.enabled ∧
        ∃ y ∈ b.session.staleness.dirty, a.image? b y = some x) ∨
      b'.session.enabled = true ∧ ∃ e ∈ ranges, x ∈ e

/-- An action that leaves the text and the listeners as they are. -/
structure Plain (a : Action) (b : Buffer) : Prop where
  listeners : ∀ before, a.listeners b before = before
  next      : a.nextListener b = b.session.nextListener
  image     : ∀ o, a.image? b o = some o

/-- The text changes and the listeners change in no other way than these. -/
def isPlain : Action → Bool
  | op (.change _) => false
  | connect => false
  | disconnect _ => false
  | _ => true

/-- All actions but changes of the text and of the listeners are plain. -/
theorem plain_of {a : Action} (h : a.isPlain = true) : a.Plain b := by
  cases a with
  | op o =>
      cases o with
      | change c => exact absurd h Bool.false_ne_true
      | _ => exact ⟨fun _ => rfl, rfl, fun _ => rfl⟩
  | connect => exact absurd h Bool.false_ne_true
  | disconnect listener => exact absurd h Bool.false_ne_true
  | _ => exact ⟨fun _ => rfl, rfl, fun _ => rfl⟩

/-- A plain action announces what its session does. -/
theorem Plain.announces {a : Action} (hplain : a.Plain b) {f : Session → Session}
    (h : Session.Announces f b.session ranges) (hb' : b'.session = f b.session)
    (hperform : ∀ listeners mail, a.perform? (b.hearing listeners mail) =
      some { b' with session := f (b.session.hearing listeners mail) }) :
    a.Announces b b' ranges := by
  refine ⟨?_, ?_, ?_⟩
  · intro listeners mail
    rw [hperform, h.hears, hplain.listeners, ← hb']
    rfl
  · rw [hb', hplain.next, h.next]
  · intro x hx
    rw [hb'] at hx ⊢
    rcases h.dirty x hx with hx | ⟨hon, hx⟩
    · exact .inl ⟨h.enabled, x, hx, hplain.image x⟩
    · exact .inr ⟨h.enabled.trans hon, hx⟩

/-- A plain action that does nothing announces nothing. -/
theorem Plain.announces_idle {a : Action} (hplain : a.Plain b)
    (hperform : ∀ listeners mail,
      a.perform? (b.hearing listeners mail) = some (b.hearing listeners mail)) :
    a.Announces b b [] :=
  hplain.announces (.refl b.session) rfl hperform

/-- A plain action that is a call announces what the call does. -/
theorem Plain.announces_call {a : Action} (hplain : a.Plain b) (h : b.session.Bounded b.document)
    (c : Session.Call) (hperform : ∀ listeners mail, a.perform? (b.hearing listeners mail) =
      some { b with session := c.apply b.document (b.session.hearing listeners mail) }) :
    ∃ ranges, a.Announces b { b with session := c.apply b.document b.session } ranges := by
  obtain ⟨told, htold⟩ := h.announces_call c
  exact ⟨told, hplain.announces htold rfl hperform⟩

/-- A plain action that sets a grammar announces the whole text. -/
theorem Plain.announces_setGrammar {a : Action} (hplain : a.Plain b) (g : Grammar)
    (hperform : ∀ listeners mail, a.perform? (b.hearing listeners mail) =
      some ((b.hearing listeners mail).setGrammar g)) :
    a.Announces b (b.setGrammar g) [⟨0, b.document.length⟩] := by
  have hlexicon : Session.Announces (fun t : Session => { t with lexicon := .ofGrammar g })
      b.session [] := .quiet (fun _ _ => rfl) rfl rfl fun _ hx => hx
  exact hplain.announces (hlexicon.trans (Session.announces_rebuild _ b.document)) rfl hperform

/-- A change of the text announces what its session does. -/
theorem Announces.of_edit {c : Change} {doc' : Document} {staleness : Staleness} {paint : Paint}
    (h : b.session.Bounded b.document)
    (hoff : b.session.enabled = false → ∀ x, x ∉ b.session.staleness.dirty)
    (hedit : Edited b.document.chars doc'.chars (c.edit b.document))
    (hmoved : b.session.staleness.dirty.Carried staleness.dirty (c.edit b.document))
    (hb' : b'.session =
      Session.applyEdit { b.session with staleness, paint } doc' (c.edit b.document))
    (hperform : ∀ listeners mail, (b.hearing listeners mail).change c = { b' with
      session := Session.applyEdit
        { b.session.hearing listeners mail with staleness, paint } doc' (c.edit b.document) }) :
    ∃ ranges, (op (.change c)).Announces b b' ranges := by
  obtain ⟨told, htold, hdirty⟩ := h.announces_edit hoff hedit hmoved paint
  have hkeeps := htold.enabled
  have hnext := htold.next
  rw [← hb'] at hkeeps hnext hdirty
  refine ⟨told, ?_, hnext, ?_⟩
  · intro listeners mail
    have hrun := htold.hears listeners mail
    rw [← hb'] at hrun
    show some ((b.hearing listeners mail).change c) = _
    rw [hperform]
    exact congrArg (fun t => some { b' with session := t }) hrun
  · intro x hx
    rcases hdirty x hx with hx | ⟨hon, hx⟩
    · exact .inl ⟨hkeeps, hx⟩
    · exact .inr ⟨hkeeps.trans hon, hx⟩

/-- A change announces what it makes dirty, and nothing when it changes nothing. -/
theorem exists_announces_change (h : b.session.Bounded b.document)
    (hoff : b.session.enabled = false → ∀ x, x ∉ b.session.staleness.dirty) (c : Change) :
    ∃ ranges, (op (.change c)).Announces b (b.change c) ranges := by
  rcases change_spec h.laid c with ⟨hstill, hsame⟩ | ⟨hmoves, -⟩
  · -- nothing is put in or taken out, whoever listens
    have hidle : ∀ listeners mail,
        (op (.change c)).perform? (b.hearing listeners mail) = some (b.hearing listeners mail) := by
      intro listeners mail
      rcases change_spec (b := b.hearing listeners mail) h.laid c with ⟨-, hidle⟩ | ⟨hmoves, -⟩
      · exact congrArg some hidle
      · exact absurd hstill hmoves
    rw [hsame]
    have hplain : (op (.change c)).Plain b := ⟨fun _ => rfl, rfl, Edit.image?_of_still hstill⟩
    exact ⟨[], hplain.announces_idle hidle⟩
  · cases c with
    | insert pos text =>
        have hfull : text.size ≠ 0 := fun hzero => hmoves (congrArg Nat.cast hzero)
        have hinsert : b.change (.insert pos text) = _ := insert_eq b pos hfull
        rw [hinsert]
        exact Announces.of_edit h hoff (Change.edited b.document (.insert pos text))
          (ExtentSet.carried_afterInsert _ _ _) rfl
          fun listeners mail => insert_eq (b.hearing listeners mail) pos hfull
    | delete range =>
        have hfull : (b.document.slice (range.clampTo b.length)).size ≠ 0 := by
          intro hzero
          have hsize : (b.document.slice (range.clampTo b.length)).size =
              min range.stop b.length - min range.start b.length :=
            b.document.size_slice_clampTo range
          refine hmoves ?_
          show -((min range.stop b.length - min range.start b.length : Nat) : Int) = 0
          omega
        obtain ⟨hlt, hdelete⟩ := delete_eq b hfull
        have hdelete : b.change (.delete range) = _ := hdelete
        rw [hdelete]
        exact Announces.of_edit h hoff (Change.edited b.document (.delete range))
          (ExtentSet.carried_afterDelete _ hlt) rfl
          fun listeners mail => (delete_eq (b.hearing listeners mail) hfull).2

/-- Every operation announces what it makes dirty. -/
theorem exists_announces_op (h : b.session.Bounded b.document)
    (hoff : b.session.enabled = false → ∀ x, x ∉ b.session.staleness.dirty) (o : Op) :
    ∃ ranges, (op o).Announces b (o.apply b) ranges := by
  cases o with
  | change c => exact exists_announces_change h hoff c
  | highlight range =>
      exact (plain_of rfl).announces_call h (.highlight range) fun _ _ => rfl
  | request range =>
      exact (plain_of rfl).announces_call h (.request range) fun _ _ => rfl
  | runBackground nanoseconds =>
      exact (plain_of rfl).announces_call h (.runBackground nanoseconds) fun _ _ => rfl
  | matchingBracket pos =>
      exact (plain_of rfl).announces_call h
        (.matchingBracket pos (some b.session.settings.bracketReach)) fun _ _ => rfl
  | jumpToBracket pos =>
      exact (plain_of rfl).announces_call h (.matchingBracket pos none) fun _ _ => rfl

/-- Running until idle announces what its quanta do. -/
theorem exists_announces_runUntilIdle (h : b.session.Bounded b.document) {nanoseconds : Nat}
    (hb' : (runUntilIdle nanoseconds).perform? b = some b') :
    ∃ ranges, (runUntilIdle nanoseconds).Announces b b' ranges := by
  obtain ⟨⟨b'', n⟩, hrun, rfl⟩ := Option.map_eq_some_iff.1 hb'
  obtain ⟨s, hdrain, rfl⟩ := runUntilIdle_eq_some hrun
  obtain ⟨told, htold⟩ := h.announces_quanta (List.replicate n nanoseconds)
  refine ⟨told, (plain_of rfl).announces htold (Session.drain_eq_quanta hdrain) ?_⟩
  intro listeners mail
  have hsame := h.drain_eq_some hdrain listeners mail
  show (((Session.drain b.document nanoseconds b.quantumLimit
    (b.session.hearing listeners mail)).map _).map _) = _
  rw [hsame]
  rfl

/-- Switching highlighting on or off announces what that makes dirty. -/
theorem exists_announces_setHighlighting
    (hoff : b.session.enabled = false → ∀ x, x ∉ b.session.staleness.dirty) (on : Bool) :
    ∃ ranges, (setHighlighting on).Announces b (b.setHighlighting on) ranges := by
  obtain ⟨told, htells, hdirty⟩ := Session.tells_setEnabled hoff b.document on
  refine ⟨told, ?_, htells.next, ?_⟩
  · intro listeners mail
    exact congrArg (fun t => some { b with session := t }) (htells.hears listeners mail)
  · intro x hx
    rcases hdirty x hx with ⟨hkeeps, hx⟩ | hx
    · exact .inl ⟨hkeeps, x, hx, rfl⟩
    · exact .inr hx

/-- A language that is known announces its grammar, another one nothing. -/
theorem exists_announces_setLanguage (b : Buffer) (catalog : Catalog) (name : String) :
    ∃ ranges, (setLanguage catalog name).Announces b
      ((b.setLanguage catalog name).toOption.getD b) ranges := by
  rw [Buffer.setLanguage]
  cases hfound : catalog.require name with
  | error failure =>
      refine ⟨[], (plain_of rfl).announces_idle ?_⟩
      intro listeners mail
      rw [perform?, Buffer.setLanguage, hfound]
      rfl
  | ok g =>
      refine ⟨_, (plain_of rfl).announces_setGrammar g ?_⟩
      intro listeners mail
      rw [perform?, Buffer.setLanguage, hfound]
      rfl

/-- A language that is detected announces its grammar. -/
theorem exists_announces_detectLanguage (b : Buffer) (catalog : Catalog) :
    ∃ ranges, (detectLanguage catalog).Announces b (b.detectLanguage catalog).1 ranges := by
  rw [Buffer.detectLanguage]
  cases hfound : b.filename.bind catalog.detect? |>.bind catalog.get? with
  | none =>
      refine ⟨[], (plain_of rfl).announces_idle ?_⟩
      intro listeners mail
      have hnone : ((b.hearing listeners mail).filename.bind catalog.detect?).bind
        catalog.get? = none := hfound
      rw [perform?, Buffer.detectLanguage, hnone]
  | some g =>
      refine ⟨_, (plain_of rfl).announces_setGrammar g ?_⟩
      intro listeners mail
      have hsome : ((b.hearing listeners mail).filename.bind catalog.detect?).bind
        catalog.get? = some g := hfound
      rw [perform?, Buffer.detectLanguage, hsome]

/-- Saving announces nothing. -/
theorem exists_announces_save (b : Buffer) :
    ∃ ranges, save.Announces b ((b.save.toOption.map (·.1)).getD b) ranges := by
  rw [Buffer.save]
  cases hfile : b.filename with
  | none =>
      refine ⟨[], (plain_of rfl).announces_idle ?_⟩
      intro listeners mail
      have hnone : (b.hearing listeners mail).filename = none := hfile
      rw [perform?, Buffer.save, hnone]
      rfl
  | some path =>
      refine ⟨[], (plain_of rfl).announces (.refl b.session) rfl ?_⟩
      intro listeners mail
      have hsome : (b.hearing listeners mail).filename = some path := hfile
      rw [perform?, Buffer.save, hsome]
      rfl

/-- **Every action** announces what it makes dirty. -/
theorem exists_announces (h : b.session.Bounded b.document)
    (hoff : b.session.enabled = false → ∀ x, x ∉ b.session.staleness.dirty) (a : Action)
    (hb' : a.perform? b = some b') : ∃ ranges, a.Announces b b' ranges := by
  cases a with
  | op o =>
      obtain rfl := Option.some.inj hb'
      exact exists_announces_op h hoff o
  | call c =>
      obtain rfl := Option.some.inj hb'
      exact (plain_of rfl).announces_call h c fun _ _ => rfl
  | quanta times =>
      obtain rfl := Option.some.inj hb'
      obtain ⟨told, htold⟩ := h.announces_quanta times
      exact ⟨told, (plain_of rfl).announces htold rfl fun _ _ => rfl⟩
  | runUntilIdle nanoseconds => exact exists_announces_runUntilIdle h hb'
  | setGrammar g =>
      obtain rfl := Option.some.inj hb'
      exact ⟨_, (plain_of rfl).announces_setGrammar g fun _ _ => rfl⟩
  | setLanguage catalog name =>
      obtain rfl := Option.some.inj hb'
      exact exists_announces_setLanguage b catalog name
  | detectLanguage catalog =>
      obtain rfl := Option.some.inj hb'
      exact exists_announces_detectLanguage b catalog
  | setHighlighting on =>
      obtain rfl := Option.some.inj hb'
      exact exists_announces_setHighlighting hoff on
  | setModified on =>
      obtain rfl := Option.some.inj hb'
      exact ⟨[], (plain_of rfl).announces (.refl b.session) rfl fun _ _ => rfl⟩
  | save =>
      obtain rfl := Option.some.inj hb'
      exact exists_announces_save b
  | connect =>
      obtain rfl := Option.some.inj hb'
      refine ⟨[], ?_, rfl, fun x hx => .inl ⟨rfl, x, hx, rfl⟩⟩
      intro listeners mail
      rw [Session.letters_nil, List.append_nil]
      rfl
  | disconnect listener =>
      obtain rfl := Option.some.inj hb'
      refine ⟨[], ?_, rfl, fun x hx => .inl ⟨rfl, x, hx, rfl⟩⟩
      intro listeners mail
      rw [Session.letters_nil, List.append_nil]
      rfl

/-- What is announced is what a lone listener hears. -/
theorem Announces.told_eq {a : Action} (h : a.Announces b b' ranges) : a.told b = ranges := by
  have hlone : (Session.letters [0] ranges).map (·.2) = ranges := by
    rw [Session.letters, List.map_flatMap]
    exact List.flatMap_singleton' ranges
  rw [told, h.hears [0] []]
  exact hlone

/-- The listeners and the mail behind an action. -/
theorem Announces.mail_eq {a : Action} (h : a.Announces b b' ranges) (hb' : a.perform? b = some b') :
    b'.session.listeners = a.listeners b b.session.listeners ∧
      b'.session.mail = b.session.mail ++ Session.letters b.session.listeners ranges := by
  have hrun : some b' = some (b'.hearing (a.listeners b b.session.listeners)
      (b.session.mail ++ Session.letters b.session.listeners ranges)) :=
    hb'.symm.trans (h.hears b.session.listeners b.session.mail)
  have hsession := congrArg session (Option.some.inj hrun)
  exact ⟨congrArg Session.listeners hsession, congrArg Session.mail hsession⟩

end Action

/-! ## Reachable buffers -/

/-- What holds of the listeners of a buffer, and of what is dirty while it is off. -/
structure Attended (b : Buffer) : Prop where
  nodup : b.session.listeners.Nodup
  fresh : ∀ l ∈ b.session.listeners, l < b.session.nextListener
  off   : b.session.enabled = false → ∀ x, x ∉ b.session.staleness.dirty

/-- Numbers are given out once, so whoever connects is new. -/
theorem Attended.listeners (h : b.Attended) (a : Action) :
    (a.listeners b b.session.listeners).Nodup ∧
      ∀ l ∈ a.listeners b b.session.listeners, l < a.nextListener b := by
  cases a with
  | connect =>
      have hnew : b.session.nextListener ∉ b.session.listeners :=
        fun hl => Nat.lt_irrefl _ (h.fresh _ hl)
      refine ⟨List.nodup_append.2 ⟨h.nodup, List.nodup_singleton _, ?_⟩, ?_⟩
      · intro l hl l' hl' heq
        obtain rfl := List.mem_singleton.1 hl'
        exact hnew (heq ▸ hl)
      · intro l hl
        rcases List.mem_append.1 hl with hl | hl
        · exact Nat.lt_succ_of_lt (h.fresh l hl)
        · obtain rfl := List.mem_singleton.1 hl
          exact Nat.lt_succ_self _
  | disconnect listener =>
      exact ⟨h.nodup.filter _, fun l hl => h.fresh l (List.mem_filter.1 hl).1⟩
  | _ => exact ⟨h.nodup, h.fresh⟩

/-- Every action keeps a buffer attended. -/
theorem Attended.perform (h : b.Attended) (hb : b.session.Bounded b.document) {a : Action}
    (hb' : a.perform? b = some b') : b'.Attended := by
  obtain ⟨ranges, hranges⟩ := Action.exists_announces hb h.off a hb'
  obtain ⟨hlisteners, -⟩ := hranges.mail_eq hb'
  have hfresh := h.listeners a
  refine ⟨hlisteners ▸ hfresh.1, ?_, ?_⟩
  · rw [hlisteners, hranges.next]
    exact hfresh.2
  · intro hoff x hx
    -- what is new and dirty is so in a buffer that is on
    rcases hranges.dirty x hx with ⟨hkeeps, y, hy, -⟩ | ⟨hon, -⟩
    · exact h.off (hkeeps.symm.trans hoff) y hy
    · exact absurd (hoff.symm.trans hon) Bool.false_ne_true

/-- A new buffer is attended. -/
theorem attended_ofText (name : String) (text : Document) (settings : Settings) :
    (ofText name text settings).Attended :=
  ⟨.nil, fun _ hl => absurd hl List.not_mem_nil, fun _ _ hx => absurd hx ExtentSet.not_mem_empty⟩

/-- A buffer that can be reached is attended. -/
theorem Reachable.attended (h : b.Reachable) : b.Attended := by
  induction h with
  | ofText name text settings => exact attended_ofText name text settings
  | ofFile path contents settings =>
      obtain ⟨hnodup, hfresh, hoff⟩ :=
        attended_ofText ((Path.fileName? path).getD "unnamed") contents settings
      exact ⟨hnodup, hfresh, hoff⟩
  | op h o ih => exact ih.perform h.tended.bounded (a := .op o) rfl
  | call h c ih => exact ih.perform h.tended.bounded (a := .call c) rfl
  | runUntilIdle h hidle ih =>
      exact ih.perform h.tended.bounded (a := .runUntilIdle _) (by rw [Action.perform?, hidle]; rfl)
  | setGrammar h g ih => exact ih.perform h.tended.bounded (a := .setGrammar g) rfl
  | setLanguage h hfound ih =>
      exact ih.perform h.tended.bounded (a := .setLanguage _ _)
        (by rw [Action.perform?, hfound]; rfl)
  | detectLanguage h catalog ih =>
      exact ih.perform h.tended.bounded (a := .detectLanguage catalog) rfl
  | setHighlighting h on ih => exact ih.perform h.tended.bounded (a := .setHighlighting on) rfl
  | setModified h on ih => exact ih.perform h.tended.bounded (a := .setModified on) rfl
  | save h hsaved ih =>
      exact ih.perform h.tended.bounded (a := .save) (by rw [Action.perform?, hsaved]; rfl)
  | connect h ih => exact ih.perform h.tended.bounded (a := .connect) rfl
  | disconnect h listener ih =>
      exact ih.perform h.tended.bounded (a := .disconnect listener) rfl
  | collect h ih => exact ⟨ih.nodup, ih.fresh, ih.off⟩

/-- **Nothing goes stale in silence.**  An offset that is dirty after an action has been dirty
    before it, where the edit of the action has taken it from, or lies in a range that the action
    tells.  And each listener that stays connected hears the ranges told, all of them and in
    order. -/
theorem dirty_told (h : b.Reachable) (a : Action) (hb' : a.perform? b = some b') :
    (∀ x ∈ b'.session.staleness.dirty,
      (∃ y ∈ b.session.staleness.dirty, a.image? b y = some x) ∨ ∃ e ∈ a.told b, x ∈ e) ∧
      ∀ l ∈ b.session.listeners, l ∈ b'.session.listeners →
        b'.session.heard l = b.session.heard l ++ a.told b := by
  have hattended := h.attended
  obtain ⟨ranges, hranges⟩ := a.exists_announces h.tended.bounded hattended.off hb'
  obtain ⟨-, hmail⟩ := hranges.mail_eq hb'
  rw [hranges.told_eq]
  constructor
  · intro x hx
    rcases hranges.dirty x hx with ⟨-, hold⟩ | ⟨-, hnew⟩
    · exact .inl hold
    · exact .inr hnew
  · intro l hl _
    rw [Session.heard, Session.heard, hmail, List.filter_append, List.map_append,
      Session.heard_letters hattended.nodup hl]

/-- An empty buffer with a grammar, and someone who listens. -/
def heardEmpty : Buffer :=
  let b := (new "notes" {}).setGrammar .lisp
  { b with session := b.session.connect.1 }

/-- It gets a region over two lines. -/
theorem dirty_told_heardEmpty : Reachable heardEmpty ∧
    heardEmpty.session.listeners = [0] ∧
    (Action.op (.change (.insert 0 #['(', '\n', ')']))).perform? heardEmpty =
      some (heardEmpty.insert 0 #['(', '\n', ')']) ∧
    (∀ x ∈ (heardEmpty.insert 0 #['(', '\n', ')']).session.staleness.dirty,
      (∃ y ∈ heardEmpty.session.staleness.dirty,
        (Action.op (.change (.insert 0 #['(', '\n', ')']))).image? heardEmpty y = some x) ∨
        ∃ e ∈ (Action.op (.change (.insert 0 #['(', '\n', ')']))).told heardEmpty, x ∈ e) ∧
      ∀ l ∈ heardEmpty.session.listeners,
        l ∈ (heardEmpty.insert 0 #['(', '\n', ')']).session.listeners →
        (heardEmpty.insert 0 #['(', '\n', ')']).session.heard l =
          heardEmpty.session.heard l ++
            (Action.op (.change (.insert 0 #['(', '\n', ')']))).told heardEmpty :=
  have hreachable : Reachable heardEmpty := .connect (.setGrammar (.ofText "notes" .empty {}) .lisp)
  ⟨hreachable, rfl, rfl, dirty_told hreachable (.op (.change (.insert 0 #['(', '\n', ')']))) rfl⟩

end Buffer

end Highlighter
