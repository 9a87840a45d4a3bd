import Highlighter.Analysis
import Highlighter.Proofs.Batches

/-! # Edits — what a change of the text leaves alone

    An edit leaves the text before it as it was and moves the text behind it.  So the lines
    before the edited one look as before, and behind the edit every position looks as it
    did, at its new place (`LooksAhead`); only what is hidden there may change, as a run of
    escape chars can reach back into the edit. -/

namespace Highlighter

variable {text text' text'' : Array Char}

/-! ## Moving offsets -/

/-- To move is to add, unless it leads before the text. -/
theorem shift_cast {o : Nat} {delta : Int} (h : 0 ≤ (o : Int) + delta) :
    (shift o delta : Int) = o + delta := Int.toNat_of_nonneg h

/-- Moving keeps the order. -/
theorem shift_mono {x y : Nat} {delta : Int} (h : x ≤ y) : shift x delta ≤ shift y delta := by
  show ((x : Int) + delta).toNat ≤ ((y : Int) + delta).toNat
  omega

/-- To move twice is to move by the sum, unless the first leads before the text. -/
theorem shift_shift {o : Nat} {delta delta' : Int} (h : 0 ≤ (o : Int) + delta) :
    shift (shift o delta) delta' = shift o (delta + delta') := by
  show ((shift o delta : Int) + delta').toNat = ((o : Int) + (delta + delta')).toNat
  rw [shift_cast h, Int.add_assoc]

/-- To move a boundary twice is to move it by the sum, unless the first leads before the text. -/
theorem Boundary.shifted_shifted {b : Boundary} {delta delta' : Int}
    (h : 0 ≤ (b.offset : Int) + delta) :
    (b.shifted delta).shifted delta' = b.shifted (delta + delta') := by
  show { b with offset := shift (shift b.offset delta) delta' } = _
  rw [shift_shift h]
  rfl

/-- The edited text begins at the edit, and is longer by its delta afterwards. -/
theorem Edit.stops (e : Edit) :
    e.pos ≤ e.oldStop ∧ e.pos ≤ e.newStop ∧ (e.oldStop : Int) + e.delta = e.newStop := by
  obtain ⟨pos, delta⟩ := e
  simp only [Edit.oldStop, Edit.newStop]
  omega

/-- Behind an edit an offset moves by just the size of the edit. -/
theorem shift_of_le {e : Edit} {o : Nat} (h : e.oldStop ≤ o) :
    (shift o e.delta : Int) = o + e.delta := by
  have := e.stops
  exact shift_cast (by omega)

namespace Edit

theorem insertion_oldStop (pos count : Nat) : (insertion pos count).oldStop = pos := by
  show pos + (-(count : Int)).toNat = pos
  omega

theorem insertion_newStop (pos count : Nat) : (insertion pos count).newStop = pos + count := rfl

/-- An insertion moves what is behind it on by the number of its chars. -/
theorem shift_insertion (pos count o : Nat) :
    shift o (insertion pos count).delta = o + count := by
  show ((o : Int) + (count : Int)).toNat = o + count
  omega

theorem deletion_oldStop {start stop : Nat} (h : start ≤ stop) :
    (deletion start stop).oldStop = stop := by
  show start + (-(-((stop - start : Nat) : Int))).toNat = stop
  omega

theorem deletion_newStop (start stop : Nat) : (deletion start stop).newStop = start := by
  show start + (-((stop - start : Nat) : Int)).toNat = start
  omega

/-- A deletion moves what is behind it back by the number of its chars. -/
theorem shift_deletion (start stop o : Nat) :
    shift o (deletion start stop).delta = o - (stop - start) := by
  show ((o : Int) + -((stop - start : Nat) : Int)).toNat = o - (stop - start)
  omega

end Edit

/-! ## An edited text -/

/-- The second text comes from the first by an edit. -/
structure Edited (text text' : Array Char) (e : Edit) : Prop where
  before  : ∀ i < e.pos, text'[i]? = text[i]?
  behind  : ∀ i, e.oldStop ≤ i → text'[shift i e.delta]? = text[i]?
  inside  : e.oldStop ≤ text.size
  size_eq : (text'.size : Int) = text.size + e.delta

namespace Edited

variable {e : Edit}

/-- An edit lies inside both texts. -/
theorem pos_le (h : Edited text text' e) : e.pos ≤ text.size ∧ e.pos ≤ text'.size := by
  have hin := h.inside
  have hsize := h.size_eq
  have hold : e.oldStop = e.pos + (-e.delta).toNat := rfl
  omega

/-- The edited text ends inside the text. -/
theorem newStop_le (h : Edited text text' e) : e.newStop ≤ text'.size := by
  have hin := h.inside
  have hsize := h.size_eq
  have hold : e.oldStop = e.pos + (-e.delta).toNat := rfl
  have hnew : e.newStop = e.pos + e.delta.toNat := rfl
  omega

/-- An edit moves offsets of the one text into the other. -/
theorem shift_le (h : Edited text text' e) {o : Nat} (ho : o ≤ text.size) :
    shift o e.delta ≤ text'.size := by
  have hsize := h.size_eq
  show ((o : Int) + e.delta).toNat ≤ text'.size
  omega

/-- The end of the text moves along. -/
theorem shift_size (h : Edited text text' e) : shift text.size e.delta = text'.size := by
  have hsize := h.size_eq
  show ((text.size : Int) + e.delta).toNat = text'.size
  omega

/-- The chars before the edit are in front of the same places. -/
theorem charBefore_eq (h : Edited text text' e) {i : Nat} (hi : i ≤ e.pos) :
    charBefore text' i = charBefore text i :=
  charBefore_congr fun j hj => h.before j (Nat.lt_of_lt_of_le hj hi)

/-- Up to the edit lines begin where they did. -/
theorem isLineStart_iff (h : Edited text text' e) {i : Nat} (hi : i ≤ e.pos) :
    IsLineStart text' i ↔ IsLineStart text i := by
  show charBefore text' i = '\n' ↔ charBefore text i = '\n'
  rw [h.charBefore_eq hi]

end Edited

/-- The end of the edited text is moved along. -/
theorem newStop_eq_shift (e : Edit) : e.newStop = shift e.oldStop e.delta := by
  show e.pos + e.delta.toNat = ((e.pos + (-e.delta).toNat : Nat) + e.delta : Int).toNat
  omega

/-- Where the chars from one place on are moved to, the char before a later place moves along. -/
theorem charBefore_shift {p i : Nat} {delta : Int} (hp : 0 ≤ (p : Int) + delta)
    (hbefore : charBefore text' (shift p delta) = charBefore text p) (hi : p ≤ i)
    (hagree : ∀ j, p ≤ j → j < i → text'[shift j delta]? = text[j]?) :
    charBefore text' (shift i delta) = charBefore text i := by
  rcases Nat.eq_or_lt_of_le hi with rfl | hlt
  · exact hbefore
  · obtain ⟨j, rfl⟩ : ∃ j, i = j + 1 := ⟨i - 1, by omega⟩
    rw [shift_add (by omega), charBefore_succ, charBefore_succ, hagree j (by omega) (by omega)]

/-- To put chars in the place of others is an edit that begins with the first of them. -/
theorem edited_splice (text cs : Array Char) {e : Edit} (hle : e.pos ≤ e.oldStop)
    (hinside : e.oldStop ≤ text.size) (hdelta : e.delta = cs.size - (e.oldStop - e.pos : Nat)) :
    Edited text (text.extract 0 e.pos ++ cs ++ text.extract e.oldStop text.size) e := by
  have hfront : (text.extract 0 e.pos ++ cs).size = e.pos + cs.size := by
    rw [Array.size_append, Array.size_extract]
    omega
  refine ⟨?_, ?_, hinside, ?_⟩
  · intro i hi
    rw [Array.getElem?_append_left (by omega), Array.getElem?_append_left, Array.getElem?_extract,
      if_pos (by omega), Nat.zero_add]
    rw [Array.size_extract]
    omega
  -- what follows the chars that were put in has moved by the difference
  · intro i hi
    have hshift : shift i e.delta = e.pos + cs.size + (i - e.oldStop) := by
      show ((i : Int) + e.delta).toNat = e.pos + cs.size + (i - e.oldStop)
      omega
    rw [hshift, Array.getElem?_append_right (by omega), hfront, Nat.add_sub_cancel_left,
      Array.getElem?_extract]
    by_cases hin : i < text.size
    · rw [if_pos (by omega), Nat.add_sub_cancel' hi]
    · rw [if_neg (by omega)]
      exact (Array.getElem?_eq_none_iff.2 (by omega)).symm
  · rw [Array.size_append, hfront, Array.size_extract]
    omega

theorem edited_insert (doc : Document) {pos : Nat} (hpos : pos ≤ doc.length) (cs : Array Char) :
    Edited doc.chars (doc.insert pos cs).chars (.insertion pos cs.size) := by
  have hstop := Edit.insertion_oldStop pos cs.size
  have hsplice := edited_splice doc.chars cs (e := .insertion pos cs.size)
    (Nat.le_of_eq hstop.symm) (by rw [hstop]; exact doc.length_eq ▸ hpos) (by
      rw [hstop]
      show (cs.size : Int) = cs.size - (pos - pos : Nat)
      omega)
  rw [hstop] at hsplice
  rw [doc.chars_insert]
  exact hsplice

theorem edited_delete (doc : Document) {range : Extent} (hle : range.start ≤ doc.length)
    (hstop : range.stop ≤ doc.length) :
    Edited doc.chars (doc.delete range).chars (.deletion range.start range.stop) := by
  have hdelta : (Edit.deletion range.start range.stop).delta =
      -((range.stop - range.start : Nat) : Int) := rfl
  by_cases hempty : range.isEmpty = true
  -- a reversed extent takes out nothing
  · have hrev : range.stop ≤ range.start := by simpa [Extent.isEmpty] using hempty
    have hsame : doc.delete range = doc := doc.delete_of_le hrev
    have hzero : (Edit.deletion range.start range.stop).delta = 0 := by
      rw [hdelta]
      omega
    have hold : (Edit.deletion range.start range.stop).oldStop = range.start := by
      rw [Edit.oldStop, hzero]
      rfl
    rw [hsame]
    have hfit : (Edit.deletion range.start range.stop).oldStop ≤ doc.chars.size := by
      rw [hold]
      exact doc.length_eq ▸ hle
    refine ⟨fun _ _ => rfl, fun i _ => by rw [hzero, shift_zero], hfit, ?_⟩
    rw [hzero, Int.add_zero]
  · have hlt : range.start < range.stop := by simpa [Extent.isEmpty] using hempty
    have hold := Edit.deletion_oldStop (Nat.le_of_lt hlt)
    have hchars : (doc.delete range).chars =
        doc.chars.extract 0 range.start ++ #[] ++ doc.chars.extract range.stop doc.chars.size := by
      rw [doc.chars_delete hlt, Array.append_empty]
    have hsplice := edited_splice doc.chars #[] (e := .deletion range.start range.stop)
      (by rw [hold]; exact Nat.le_of_lt hlt) (by rw [hold]; exact doc.length_eq ▸ hstop) (by
        rw [hold, hdelta]
        show -((range.stop - range.start : Nat) : Int) = 0 - (range.stop - range.start : Nat)
        omega)
    rw [hold] at hsplice
    rw [hchars]
    exact hsplice

/-- A change of a document. -/
inductive Change where
  /-- Puts chars in at a position, or at the end. -/
  | insert (pos : Nat) (cs : Array Char)
  /-- Takes the chars of an extent out, as far as the document has them. -/
  | delete (range : Extent)

namespace Change

/-- The document after a change. -/
def apply (doc : Document) : Change → Document
  | .insert pos cs => doc.insert (min pos doc.length) cs
  | .delete range => doc.delete (range.clampTo doc.length)

/-- Where a change is, and how far it moves the text behind it. -/
def edit (doc : Document) : Change → Edit
  | .insert pos cs => .insertion (min pos doc.length) cs.size
  | .delete range => .deletion (min range.start doc.length) (min range.stop doc.length)

/-- Every change is an edit of the text, wherever its offsets lie. -/
theorem edited (doc : Document) (c : Change) :
    Edited doc.chars (c.apply doc).chars (c.edit doc) := by
  cases c with
  | insert pos cs => exact edited_insert doc (Nat.min_le_right _ _) cs
  | delete range =>
      have hle : (range.clampTo doc.length).start ≤ doc.length := Nat.min_le_right _ _
      exact edited_delete doc hle (Nat.min_le_right _ _)

end Change

/-! ## Before the edit -/

section Before

variable {lex : Lexicon} {L : Nat}

/-- Before a line start that the texts have in common, positions look alike. -/
theorem alike_before (hline : IsLineStart text' L) (hsize : L ≤ text.size) (hsize' : L ≤ text'.size)
    (hagree : ∀ i < L, text'[i]? = text[i]?) {i : Nat} (hi : i < L) :
    lex.Alike text' i text i := by
  have hnl := hline.getElem? (by omega) hsize'
  -- from the start of the text on they agree, up to the newline before the line start
  have : lex.Alike text' (0 + i) text (0 + i) := by
    refine .of_agree (n := L - 1) rfl ?_ ?_ ?_ (by omega) (by omega) (by omega)
    · rw [Lexicon.hides_zero, Lexicon.hides_zero]
    · intro j hj
      rw [Nat.zero_add]
      exact hagree j (by omega)
    · rw [Nat.zero_add]
      exact .inr hnl
  rwa [Nat.zero_add] at this

/-- A scan that stays before such a line start is one of both texts. -/
theorem Lexicon.Scans.before (hlocal : lex.LineLocal) {p q : Nat} {state state' : ScanState}
    {bs : List Boundary} (h : lex.Scans text p state bs q state') (hline : IsLineStart text' L)
    (hsize : L ≤ text.size) (hsize' : L ≤ text'.size) (hagree : ∀ i < L, text'[i]? = text[i]?)
    (hq : q ≤ L) (hbs : ∀ b ∈ bs, b.offset < L) : lex.Scans text' p state bs q state' := by
  refine h.congr ?_
  intro i state _ _ hlook
  have hi : i < L := by
    rcases hlook with hlt | ⟨b, hb, hle⟩
    · omega
    · have := hbs b hb
      omega
  have halike : lex.Alike text' i text i := alike_before hline hsize hsize' hagree hi
  exact ⟨halike.size, Lexicon.delimiterAt?_congr hlocal halike state⟩

end Before

/-! ## Behind the edit -/

/-- From `p` on the second text is the first one, moved by `delta`. -/
structure LooksAhead (text : Array Char) (p : Nat) (text' : Array Char) (delta : Int) : Prop where
  nonneg  : 0 ≤ (p : Int) + delta
  le_size : p ≤ text.size
  size_eq : (text'.size : Int) = text.size + delta
  before  : charBefore text' (shift p delta) = charBefore text p
  behind  : ∀ i, p ≤ i → text'[shift i delta]? = text[i]?

namespace LooksAhead

variable {p q : Nat} {delta delta' : Int}

/-- Distances from where both texts are alike stay. -/
theorem shift_eq_add (h : LooksAhead text p text' delta) (i : Nat) :
    shift (p + i) delta = shift p delta + i := shift_add h.nonneg i

theorem shift_le (h : LooksAhead text p text' delta) {i : Nat} (hi : i ≤ text.size) :
    shift i delta ≤ text'.size := by
  have hsize := h.size_eq
  show ((i : Int) + delta).toNat ≤ text'.size
  omega

/-- The place past the end of the one text is moved past the end of the other. -/
theorem shift_end (h : LooksAhead text p text' delta) :
    shift (text.size + 1) delta = text'.size + 1 := by
  have hsize := h.size_eq
  show ((text.size + 1 : Nat) + delta : Int).toNat = text'.size + 1
  omega

/-- The char before a position is the same in both texts. -/
theorem charBefore_eq (h : LooksAhead text p text' delta) {i : Nat} (hi : p ≤ i) :
    charBefore text' (shift i delta) = charBefore text i :=
  charBefore_shift h.nonneg h.before hi fun j hj _ => h.behind j hj

/-- What looks the same from a place on does so from any later place on. -/
theorem mono (h : LooksAhead text p text' delta) (hpq : p ≤ q) (hq : q ≤ text.size) :
    LooksAhead text q text' delta where
  nonneg := by
    have := h.nonneg
    omega
  le_size := hq
  size_eq := h.size_eq
  before := h.charBefore_eq hpq
  behind := fun i hi => h.behind i (by omega)

/-- A text moved twice is one moved by the sum. -/
theorem trans (h : LooksAhead text p text' delta)
    (h' : LooksAhead text' (shift p delta) text'' delta') :
    LooksAhead text p text'' (delta + delta') where
  nonneg := by
    have h1 := h'.nonneg
    rw [shift_cast h.nonneg] at h1
    omega
  le_size := h.le_size
  size_eq := by
    rw [h'.size_eq, h.size_eq]
    omega
  before := by
    rw [← shift_shift h.nonneg, h'.before, h.before]
  behind := by
    intro i hi
    have hi' : 0 ≤ (i : Int) + delta := by
      have := h.nonneg
      omega
    have hle : shift p delta ≤ shift i delta := by
      show ((p : Int) + delta).toNat ≤ ((i : Int) + delta).toNat
      omega
    rw [← shift_shift hi', h'.behind _ hle, h.behind i hi]

/-- Positions look alike from a place on when that place is hidden in both texts or in neither. -/
theorem alike {lex : Lexicon} (h : LooksAhead text p text' delta)
    (hhides : lex.hides text' (shift p delta) = lex.hides text p) {i : Nat} (hi : p ≤ i)
    (hsize : i ≤ text.size) : lex.Alike text' (shift i delta) text i := by
  obtain ⟨j, rfl⟩ := Nat.exists_eq_add_of_le hi
  have hn := h.size_eq
  have hnn := h.nonneg
  have hsize' := h.shift_le hsize
  rw [h.shift_eq_add] at hsize' ⊢
  refine .of_agree (n := text.size - p) h.before hhides ?_ (.inl ?_) hsize' hsize
    (by omega)
  · intro k _
    rw [← h.shift_eq_add]
    exact h.behind _ (Nat.le_add_right _ _)
  · rw [← h.shift_eq_add]
    have := h.behind (p + (text.size - p)) (Nat.le_add_right _ _)
    rw [this]
    exact Array.getElem?_eq_none_iff.2 (by omega)

end LooksAhead

/-- Behind an edit the text looks ahead as it did. -/
theorem Edited.looksAhead {e : Edit} (h : Edited text text' e) {p : Nat} (hp : e.oldStop < p)
    (hsize : p ≤ text.size) : LooksAhead text p text' e.delta := by
  have hold : e.oldStop = e.pos + (-e.delta).toNat := rfl
  have hnn : ∀ i, e.oldStop ≤ i → 0 ≤ (i : Int) + e.delta := fun i hi => by omega
  refine ⟨hnn p (by omega), hsize, h.size_eq, ?_, fun i hi => h.behind i (by omega)⟩
  obtain ⟨q, rfl⟩ : ∃ q, p = q + 1 := ⟨p - 1, by omega⟩
  rw [shift_add (hnn q (by omega)), charBefore_succ, charBefore_succ, h.behind q (by omega)]

end Highlighter
