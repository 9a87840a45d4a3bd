import Highlighter.Proofs.CharList
import Highlighter.Proofs.Switching
import Highlighter.Proofs.WordSession
import Highlighter.Word.Buffer

/-! # Overflow — all that a buffer can be asked to do, in words

    An action overflows by a range that was asked for, by the end of a batch, or by the
    number of passes (`Action.Overflows`).  As long as the text stays small, nothing else
    does: a run of actions in words gives what it gives in numbers, and when one of them
    overflows it stops there (`computes_performAll`).

    So bringing a range along with an insertion, and adding a batch to where it starts, are
    the places that would have to be capped, as it is done for the reach of a bracket. -/

namespace Highlighter

/-! ## What overflows -/

/-- A call that overflows. -/
def Session.Call.Overflows (doc : Document) (s : Session) : Session.Call → Prop
  | highlight range =>
    s.enabled = true ∧ s.Overruns doc (doc.snapToLines (range.clampTo doc.length)).stop
      (Session.roundLimit doc) ∨ (s.highlight doc range).1.Worn
  | ensureHighlighted range =>
    s.enabled = true ∧ s.Overruns doc range.stop (Session.roundLimit doc) ∨
      (s.ensureHighlighted doc range).Worn
  | request _ => False
  | clearRequested => False
  | runBackground nanoseconds =>
    s.QuantumOvershoots doc ∨ (s.runBackground doc nanoseconds).1.Worn
  | matchingBracket pos limit =>
    (s.enabled && s.lexicon.hasRegions) = true ∧
      s.Overruns doc (min (pos + limit.getD doc.length) doc.length) (Session.roundLimit doc)

namespace Buffer

variable {b b' : Buffer} {a : Action} {as : List Action}

/-- A change that overflows: one of the ranges asked for cannot follow it. -/
def ChangeOverflows (b : Buffer) : Change → Prop
  | .insert pos text => text.size ≠ 0 ∧
    ∃ e ∈ b.session.staleness.requested.extents, Word.Outgrows e (min pos b.length) text.size
  | .delete _ => False

/-- An operation that overflows. -/
def Op.Overflows (b : Buffer) : Op → Prop
  | change c => b.ChangeOverflows c
  | highlight range => (Session.Call.highlight range).Overflows b.document b.session
  | request _ => False
  | runBackground nanoseconds =>
    (Session.Call.runBackground nanoseconds).Overflows b.document b.session
  | matchingBracket pos =>
    (Session.Call.matchingBracket pos (some b.session.settings.bracketReach)).Overflows b.document
      b.session
  | jumpToBracket pos => (Session.Call.matchingBracket pos none).Overflows b.document b.session

/-- An action that overflows. -/
def Action.Overflows (b : Buffer) : Action → Prop
  | op o => o.Overflows b
  | call c => c.Overflows b.document b.session
  | quanta times => b.session.QuantaOverflow b.document times
  | runUntilIdle nanoseconds =>
    b.session.QuantaOverflow b.document (List.replicate b.quantumLimit nanoseconds)
  | _ => False

/-- One of the actions overflows, when it comes to it. -/
def OverflowsAlong (b : Buffer) : List Action → Prop
  | [] => False
  | a :: as => a.Overflows b ∨ ∃ b', a.perform? b = some b' ∧ b'.OverflowsAlong as

/-- The text is small, before and after each of the actions. -/
def SmallAlong (b : Buffer) : List Action → Prop
  | [] => b.length < textLimit
  | a :: as => b.length < textLimit ∧ ∀ b', a.perform? b = some b' → b'.SmallAlong as

end Buffer

/-! ## Actions in words -/

namespace Word

open Buffer (Action Op)

/-- A session after a call. -/
def call (doc : Document) (s : Session) : Session.Call → Checked Session
  | .highlight range => do return (← highlight doc s range).1
  | .ensureHighlighted range => ensureHighlighted doc s range
  | .request range => return s.request range
  | .clearRequested => return s.clearRequested
  | .runBackground nanoseconds => do return (← runBackground doc s nanoseconds).1
  | .matchingBracket pos limit => do return (← matchingBracket doc s pos limit).1

/-- A buffer after a change of its text. -/
def change (b : Buffer) : Change → Checked Buffer
  | .insert pos text => insert b pos text
  | .delete range => do return (← delete b range).1

/-- A buffer after an operation. -/
def operate (b : Buffer) : Op → Checked Buffer
  | .change c => change b c
  | .highlight range => do return (← spansOf b range).1
  | .request range => return b.request range
  | .runBackground nanoseconds => do return (← runQuantum b nanoseconds).1
  | .matchingBracket pos => do
    return (← findBracket b pos (some b.session.settings.bracketReach)).1
  | .jumpToBracket pos => do return (← findBracket b pos none).1

/-- A buffer after an action, none when the action does not end.  Starting over, saving and
    listening take no arithmetic. -/
def perform? (b : Buffer) : Action → Checked (Option Buffer)
  | .op o => do return some (← operate b o)
  | .call c => do return some { b with session := ← call b.document b.session c }
  | .quanta times => do
    let session ← times.foldlM (fun s nanoseconds => do
      return (← runBackground b.document s nanoseconds).1) b.session
    return some { b with session }
  | .runUntilIdle nanoseconds => do return (← runUntilIdle b nanoseconds).map (·.1)
  | a => return a.perform? b

/-- A buffer after some actions, none when one of them does not end. -/
def performAll? (b : Buffer) : List Action → Checked (Option Buffer)
  | [] => return some b
  | a :: as => do
    match ← perform? b a with
    | some b' => performAll? b' as
    | none => return none

/-! ## Calls -/

section Calls

variable {doc : Document} {s : Session}

/-- **A call** in words does what it does in numbers, unless it overflows. -/
theorem computes_call (hsmall : doc.length < textLimit) (hbounded : s.Bounded doc) (hfits : s.Fits)
    (c : Session.Call) : Computes (call doc s c) (c.apply doc s) (c.Overflows doc s) := by
  cases c with
  | highlight range => exact (computes_highlight hsmall hbounded hfits.fresh range).map _
  | ensureHighlighted range => exact computes_ensureHighlighted hsmall hbounded hfits.fresh range
  | request range => exact .of_ok rfl id
  | clearRequested => exact .of_ok rfl id
  | runBackground nanoseconds =>
      exact (computes_runBackground hsmall hbounded hfits nanoseconds).map _
  | matchingBracket pos limit => exact (computes_matchingBracket hsmall s pos limit).map _

end Calls

end Word

namespace Session

variable {doc : Document} {s s' : Session}

/-- Work on demand leaves the length of quanta as it is. -/
theorem slice_ensureHighlighted (s : Session) (doc : Document) (range : Extent) :
    (s.ensureHighlighted doc range).pacer.slice = s.pacer.slice := by
  rw [ensureHighlighted]
  split
  · exact (Steady.ensureAnalyzed s doc range.stop).slice
  · rfl

/-- What a call leaves fits, unless it overflows. -/
theorem Fits.call (h : s.Fits) {c : Call} (hgood : ¬c.Overflows doc s) : (c.apply doc s).Fits := by
  cases c with
  | highlight range =>
      refine ⟨?_, (not_or.1 hgood).2⟩
      show (s.highlight doc range).1.pacer.slice < wordLimit
      rw [highlight]
      split
      · exact (slice_ensureHighlighted s doc _).symm ▸ h.slice
      · exact h.slice
  | ensureHighlighted range =>
      exact ⟨(slice_ensureHighlighted s doc range).symm ▸ h.slice, (not_or.1 hgood).2⟩
  | request range => exact ⟨h.slice, h.fresh⟩
  | clearRequested => exact ⟨h.slice, h.fresh⟩
  | runBackground nanoseconds => exact h.runBackground hgood
  | matchingBracket pos limit =>
      refine h.steady ?_
      show s.Steady (s.matchingBracket doc pos limit).1
      rw [matchingBracket]
      split
      · exact Steady.ensureAnalyzed s doc _
      · exact .refl s

/-- Quanta that do not overflow keep a session within words. -/
theorem Fits.quanta (h : s.Fits) {times : List Nat} (hgood : ¬s.QuantaOverflow doc times) :
    (s.quanta doc times).Fits := by
  induction times generalizing s with
  | nil => exact h
  | cons nanoseconds rest ih =>
      obtain ⟨hone, hrest⟩ := not_or.1 hgood
      exact ih (h.runBackground hone) hrest

/-- More quanta do not undo an overflow. -/
theorem QuantaOverflow.append {times : List Nat} (h : s.QuantaOverflow doc times)
    (more : List Nat) : s.QuantaOverflow doc (times ++ more) := by
  induction times generalizing s with
  | nil => exact h.elim
  | cons nanoseconds rest ih => exact h.imp id ih

/-- To drain without an overflow keeps a session within words. -/
theorem Fits.drain (h : s.Fits) {nanoseconds quanta n : Nat}
    (hgood : ¬s.QuantaOverflow doc (List.replicate quanta nanoseconds))
    (hs' : drain doc nanoseconds quanta s = some (s', n)) : s'.Fits := by
  rw [drain_eq_quanta hs']
  refine h.quanta fun hbad => hgood ?_
  -- the loop has stopped after the first of the quanta that it may take
  have hmore := hbad.append (List.replicate (quanta - n) nanoseconds)
  rwa [List.replicate_append_replicate, Nat.add_sub_of_le (drain_count_le hs')] at hmore

theorem Steady.onInsert (s : Session) (doc : Document) (pos count : Nat) :
    s.Steady (s.onInsert doc pos count) := by
  rw [Session.onInsert]
  split
  · exact refl s
  · have hedit := applyEdit { s with
      staleness := s.staleness.afterInsert pos count, paint := s.paint.afterInsert pos count }
      doc (.insertion pos count)
    exact ⟨hedit.slice, hedit.renders⟩

theorem Steady.onDelete (s : Session) (doc : Document) (start stop : Nat) :
    s.Steady (s.onDelete doc start stop) := by
  rw [Session.onDelete]
  split
  · exact refl s
  · have hedit := applyEdit { s with
      staleness := s.staleness.afterDelete start stop, paint := s.paint.afterDelete start stop }
      doc (.deletion start stop)
    exact ⟨hedit.slice, hedit.renders⟩

end Session

namespace Word

open Buffer (Action Op)

variable {b b' : Buffer} {a : Action} {as : List Action}

/-- **A change** in words does what it does in numbers, unless a range asked for cannot follow. -/
theorem computes_change (hbounded : b.session.Bounded b.document) (hsmall : b.length < textLimit)
    (c : Change) (hsmall' : (b.change c).length < textLimit) :
    Computes (change b c) (b.change c) (b.ChangeOverflows c) := by
  cases c with
  | insert pos text =>
      have hsmall' : (b.insert pos text).length < textLimit := hsmall'
      have hpos : min pos b.length ≤ b.document.length := Nat.min_le_right _ _
      have hsize : b.document.length + text.size =
          (b.document.insert (min pos b.length) text).length := by
        have hgrown := (edited_insert b.document hpos text).size_eq
        have hdelta : (Edit.insertion (min pos b.length) text.size).delta = text.size := rfl
        rw [← Document.length_eq, ← Document.length_eq, hdelta] at hgrown
        omega
      show Computes (Word.insert b pos text) (b.insert pos text) _
      rw [Word.insert]
      rw [Buffer.insert] at hsmall' ⊢
      dsimp only at hsmall' ⊢
      by_cases hempty : text.isEmpty = true
      · rw [if_pos hempty, if_pos hempty]
        exact .of_ok rfl fun hbad => hbad.1 (Array.size_eq_zero_iff.2 (Array.isEmpty_iff.1 hempty))
      · rw [if_neg hempty] at hsmall'
        have hnew : (b.document.insert (min pos b.length) text).length < textLimit := hsmall'
        rw [if_neg hempty, if_neg hempty]
        exact (computes_onInsert hnew hbounded.upto hbounded.laid hpos hsize).map
          fun session => { b with
            document := b.document.insert (min pos b.length) text, modified := true, session }
  | delete range =>
      have hsmall' : (b.delete range).1.length < textLimit := hsmall'
      have hedited := @edited_delete b.document (range.clampTo b.length) (Nat.min_le_right _ _)
        (Nat.min_le_right _ _)
      have hstop : (range.clampTo b.length).stop < wordLimit :=
        lt_wordLimit (show min range.stop b.length ≤ 2 * textLimit by omega)
      refine .of_ok ?_ id
      show (do return (← Word.delete b range).1) = Except.ok (b.delete range).1
      rw [Word.delete]
      rw [Buffer.delete] at hsmall' ⊢
      simp only [Document.remove_snd] at hsmall' ⊢
      by_cases hempty : (b.document.slice (range.clampTo b.length)).isEmpty = true
      · rw [if_pos hempty, if_pos hempty]
        rfl
      · rw [if_neg hempty] at hsmall'
        have hnew : (b.document.remove (range.clampTo b.length)).1.length < textLimit := hsmall'
        have hstart : (range.clampTo b.length).start ≤
            (b.document.remove (range.clampTo b.length)).1.length :=
          Document.length_eq _ ▸ hedited.pos_le.2
        rw [if_neg hempty, if_neg hempty, onDelete_eq hnew hstart hstop]
        rfl

end Word

/-- What a change leaves fits. -/
theorem Session.Fits.change {b : Buffer} (h : b.session.Fits) (c : Change) :
    (b.change c).session.Fits := by
  cases c with
  | insert pos text =>
      show (b.insert pos text).session.Fits
      rw [Buffer.insert]
      dsimp only
      split
      · exact h
      · exact h.steady (Steady.onInsert _ _ _ _)
  | delete range =>
      show (b.delete range).1.session.Fits
      rw [Buffer.delete]
      split
      · exact h
      · exact h.steady (Steady.onDelete _ _ _ _)

/-! ## Actions -/

namespace Word

open Buffer (Action Op)

variable {b b' : Buffer} {a : Action} {as : List Action}

/-- **An operation** in words does what it does in numbers, unless it overflows. -/
theorem computes_operate (hbounded : b.session.Bounded b.document) (hfits : b.session.Fits)
    (hsmall : b.length < textLimit) (o : Op) (hsmall' : (o.apply b).length < textLimit) :
    Computes (operate b o) (o.apply b) (o.Overflows b) := by
  cases o with
  | change c => exact computes_change hbounded hsmall c hsmall'
  | highlight range =>
      exact ((computes_highlight hsmall hbounded hfits.fresh range).map _).map _
  | request range => exact .of_ok rfl id
  | runBackground nanoseconds =>
      exact ((computes_runBackground hsmall hbounded hfits nanoseconds).map _).map _
  | matchingBracket pos => exact ((computes_matchingBracket hsmall b.session pos _).map _).map _
  | jumpToBracket pos => exact ((computes_matchingBracket hsmall b.session pos none).map _).map _

/-- **An action** in words does what it does in numbers, unless it overflows. -/
theorem computes_perform (h : b.Reachable) (hfits : b.session.Fits) (hsmall : b.length < textLimit)
    (hsmall' : ∀ b', a.perform? b = some b' → b'.length < textLimit) :
    Computes (perform? b a) (a.perform? b) (a.Overflows b) := by
  have hbounded := h.tended.bounded
  cases a with
  | op o => exact (computes_operate hbounded hfits hsmall o (hsmall' _ rfl)).map _
  | call c => exact (computes_call hsmall hbounded hfits c).map _
  | quanta times => exact (computes_quanta hsmall hbounded hfits times).map _
  | runUntilIdle nanoseconds =>
      have hquanta : b.quantumLimit < wordLimit := by
        have hlimit : b.quantumLimit = 2 * b.document.length + 4 + 2 := rfl
        have hword := wordLimit_eq
        have htext : 3 ≤ textLimit := by decide
        have hlength : b.document.length < textLimit := hsmall
        omega
      exact ((computes_drain hsmall hbounded hfits nanoseconds hquanta).map _).map _
  | _ => exact .of_ok rfl id

end Word

namespace Buffer

variable {b b' : Buffer} {a : Action} {as : List Action}

/-- A new session fits into words when its settings do. -/
theorem fits_ofText (name : String) (text : Document) {settings : Settings}
    (hslice : settings.sliceMicros < wordLimit) : (ofText name text settings).session.Fits :=
  ⟨hslice, Nat.not_le.2 (show 0 < wordLimit by decide)⟩

theorem fits_setGrammar (h : b.session.Fits) (g : Grammar) : (b.setGrammar g).session.Fits := by
  have hlexicon : Session.Fits { b.session with lexicon := .ofGrammar g } := ⟨h.slice, h.fresh⟩
  exact hlexicon.steady (.rebuild _ b.document)

theorem fits_setHighlighting (h : b.session.Fits) (on : Bool) :
    (b.setHighlighting on).session.Fits := by
  rw [Buffer.setHighlighting, Session.setEnabled]
  split
  · exact h
  · cases on with
    | true =>
        have hon : Session.Fits { b.session with enabled := true } := ⟨h.slice, h.fresh⟩
        exact hon.steady (.rebuild _ b.document)
    | false => exact ⟨h.slice, h.fresh⟩

/-- What an action leaves fits, unless it overflows. -/
theorem fits_perform (h : b.session.Fits) (hgood : ¬a.Overflows b) (hb' : a.perform? b = some b') :
    b'.session.Fits := by
  cases a with
  | op o =>
      obtain rfl := Option.some.inj hb'
      cases o with
      | change c => exact h.change c
      | highlight range => exact h.call (c := .highlight range) hgood
      | request range => exact ⟨h.slice, h.fresh⟩
      | runBackground nanoseconds => exact h.call (c := .runBackground nanoseconds) hgood
      | matchingBracket pos => exact h.call (c := .matchingBracket pos _) hgood
      | jumpToBracket pos => exact h.call (c := .matchingBracket pos none) hgood
  | call c =>
      obtain rfl := Option.some.inj hb'
      exact h.call hgood
  | quanta times =>
      obtain rfl := Option.some.inj hb'
      exact h.quanta hgood
  | runUntilIdle nanoseconds =>
      obtain ⟨⟨b'', n⟩, hrun, rfl⟩ := Option.map_eq_some_iff.1 hb'
      obtain ⟨s, hdrain, rfl⟩ := runUntilIdle_eq_some hrun
      exact h.drain hgood hdrain
  | setGrammar g =>
      obtain rfl := Option.some.inj hb'
      exact fits_setGrammar h g
  | setLanguage catalog name =>
      obtain rfl := Option.some.inj hb'
      cases hfound : b.setLanguage catalog name with
      | error failure => exact h
      | ok b'' =>
          obtain ⟨g, rfl⟩ := setLanguage_eq_ok hfound
          exact fits_setGrammar h g
  | detectLanguage catalog =>
      obtain rfl := Option.some.inj hb'
      rcases b.detectLanguage_cases catalog with heq | ⟨g, heq⟩
      · rwa [heq]
      · rw [heq]
        exact fits_setGrammar h g
  | setHighlighting on =>
      obtain rfl := Option.some.inj hb'
      exact fits_setHighlighting h on
  | setModified on =>
      obtain rfl := Option.some.inj hb'
      exact h
  | save =>
      obtain rfl := Option.some.inj hb'
      cases hsaved : b.save with
      | error failure => exact h
      | ok saved =>
          obtain ⟨b'', path, contents⟩ := saved
          obtain rfl := save_eq_ok hsaved
          exact h
  | connect =>
      obtain rfl := Option.some.inj hb'
      exact ⟨h.slice, h.fresh⟩
  | disconnect listener =>
      obtain rfl := Option.some.inj hb'
      exact ⟨h.slice, h.fresh⟩

theorem SmallAlong.length_lt (h : b.SmallAlong as) : b.length < textLimit := by
  cases as with
  | nil => exact h
  | cons a as => exact h.1

/-- A text that is small along some actions is small behind them. -/
theorem SmallAlong.performAll (h : b.SmallAlong as) (hb' : b.performAll? as = some b') :
    b'.length < textLimit := by
  induction as generalizing b with
  | nil =>
      obtain rfl := Option.some.inj hb'
      exact h
  | cons a as ih =>
      obtain ⟨b₁, hb₁, hrest⟩ := Option.bind_eq_some_iff.1 hb'
      exact ih (h.2 b₁ hb₁) hrest

end Buffer

/-! ## Bytes -/

/-- A char takes four bytes at most. -/
theorem length_utf8_le (cs : List Char) : (utf8 cs).length ≤ 4 * cs.length := by
  induction cs with
  | nil => exact Nat.le_refl 0
  | cons c cs ih =>
      have hsize := c.utf8Size_le_four
      rw [length_utf8_cons, List.length_cons]
      omega

/-- All byte offsets of a small text are words. -/
theorem Document.byteOffset_lt {doc : Document} (hsmall : doc.length < textLimit) (o : Nat) :
    doc.byteOffset o < wordLimit := by
  have hbytes := length_utf8_le (doc.chars.toList.take o)
  have hlength : (doc.chars.toList.take o).length ≤ doc.length :=
    doc.length_toList ▸ List.length_take_le' _ _
  have hword := Word.wordLimit_eq
  rw [byteOffset_eq]
  omega

/-! ## Runs -/

namespace Word

open Buffer (Action Op)

variable {b : Buffer} {as : List Action}

/-- **A run of actions in words** gives what it gives in numbers, unless one of them overflows: by a
    range that was asked for and is moved past the last word, by a batch that is too large for
    where it starts, or by more passes than there are words.  Then it stops.  The bytes of the
    text can be counted in words, too. -/
theorem computes_performAll (h : b.Reachable) (hfits : b.session.Fits) (hsmall : b.SmallAlong as) :
    Computes (performAll? b as) (b.performAll? as) (b.OverflowsAlong as) ∧
      ∀ b', b.performAll? as = some b' → ∀ o, b'.document.byteOffset o < wordLimit := by
  refine ⟨?_, fun b' hb' => Document.byteOffset_lt (hsmall.performAll hb')⟩
  -- an action that does not overflow leaves what the next one needs: a buffer that fits
  induction as generalizing b with
  | nil => exact .of_ok rfl id
  | cons a as ih =>
      have hsmall' := fun b' hb' => (hsmall.2 b' hb').length_lt
      rw [performAll?, Buffer.performAll?, Buffer.OverflowsAlong]
      refine Computes.bind (computes_perform h hfits hsmall.1 hsmall') ?_
      intro hgood
      cases hb' : a.perform? b with
      | none =>
          refine .of_ok rfl ?_
          rintro ⟨_, hsome, _⟩
          exact absurd hsome.symm (Option.some_ne_none _)
      | some b' =>
          have hrest := ih (h.perform hb') (Buffer.fits_perform hfits hgood hb') (hsmall.2 b' hb')
          refine Computes.congr hrest ⟨fun hbad => ⟨b', rfl, hbad⟩, ?_⟩
          rintro ⟨b'', hsome, hbad⟩
          obtain rfl := Option.some.inj hsome
          exact hbad

/-- A buffer with three chars and no grammar. -/
def abc : Buffer := .ofText "notes" (.ofChars #['a', 'b', 'c']) {}

/-- A range is asked for, and then a char comes before it. -/
def asking (e : Extent) : List Action := [.op (.request e), .op (.change (.insert 0 #['x']))]

/-- A range of the text moves along. -/
theorem computes_performAll_asking :
    abc.Reachable ∧ abc.session.Fits ∧ abc.SmallAlong (asking ⟨1, 3⟩) ∧
      performAll? abc (asking ⟨1, 3⟩) = .ok (abc.performAll? (asking ⟨1, 3⟩)) := by
  have hreachable : abc.Reachable := .ofText "notes" (.ofChars #['a', 'b', 'c']) {}
  have hfits : abc.session.Fits := Buffer.fits_ofText _ _ (by decide)
  have hsmall : abc.SmallAlong (asking ⟨1, 3⟩) := by
    refine ⟨by decide, ?_⟩
    intro b' hb'
    obtain rfl := Option.some.inj hb'
    refine ⟨by decide, ?_⟩
    intro b' hb'
    obtain rfl := Option.some.inj hb'
    show 4 < textLimit
    decide
  have hgood : ¬abc.OverflowsAlong (asking ⟨1, 3⟩) := by
    rintro (hbad | ⟨b', hb', hbad⟩)
    · exact hbad
    · obtain rfl := Option.some.inj hb'
      obtain ⟨-, e, he, hout⟩ | ⟨b'', hb'', hbad⟩ := hbad
      · obtain rfl : e = ⟨1, 3⟩ := List.mem_singleton.1 he
        exact absurd hout (not_outgrows (n := 3) (by decide) (by decide) (by decide))
      · exact hbad
  exact ⟨hreachable, hfits, hsmall, (computes_performAll hreachable hfits hsmall).1.gives hgood⟩

/-- **A range that ends at the last word** does not: the insertion makes a sum that is no word. -/
theorem performAll_asking_beyond :
    performAll? abc (asking ⟨5, wordLimit - 1⟩) = .error (.sum (wordLimit - 1) 1) := rfl

end Word

end Highlighter
