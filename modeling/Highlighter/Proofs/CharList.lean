import Highlighter.Proofs.Bytes
import Highlighter.Proofs.Edits

/-! # Char lists — a document is its text

    A document reads its code through byte marks and finds lines by searching bytes, and all
    of it follows the text; so every answer is one about the list of its chars (`Reads`).
    The lines it finds are the ones that a walk over the chars finds (`lineStart_eq_walk`,
    `lineEnd_eq_walk`).

    An edit splices the list, wherever its offsets lie (`Change.make_toList`); so after any
    edits the document reads as the list that they lead to (`Document.refines_chars`). -/

namespace Highlighter

namespace Document

variable (d : Document)

/-! ## Lines by walking -/

/-- The start of a line is the line start with no newline up to the offset. -/
theorem lineStart_eq {o q : Nat} (hle : q ≤ min o d.length) (hq : IsLineStart d.chars q)
    (hnone : ∀ i, q ≤ i → i < min o d.length → d.chars[i]? ≠ some '\n') : d.lineStart o = q := by
  have hmin := d.lineStart_le o
  refine Nat.le_antisymm (Nat.not_lt.1 ?_) (d.le_lineStart hq hle)
  intro hlt
  have hin : d.lineStart o ≤ d.chars.size :=
    d.length_eq ▸ Nat.le_trans hmin (Nat.min_le_right _ _)
  have hnl := (d.isLineStart_lineStart o).getElem? (Nat.zero_lt_of_lt hlt) hin
  exact hnone (d.lineStart o - 1) (Nat.le_sub_one_of_lt hlt) (by omega) hnl

/-- The end of a line is the line end with no newline from the offset on. -/
theorem lineEnd_eq {o q : Nat} (hle : min o d.length ≤ q) (hq : q ≤ d.length)
    (hend : AtLineEnd d.chars q)
    (hnone : ∀ i, min o d.length ≤ i → i < q → d.chars[i]? ≠ some '\n') : d.lineEnd o = q := by
  have hinside : ∀ {p}, p < d.length → AtLineEnd d.chars p → d.chars[p]? = some '\n' := by
    intro p hp hend
    refine hend.resolve_left ?_
    intro hout
    exact absurd (Array.getElem?_eq_none_iff.1 hout) (Nat.not_le.2 (d.length_eq ▸ hp))
  obtain ⟨hge, hlen, hstop, hfree⟩ := d.lineEnd_spec o
  rcases Nat.lt_trichotomy (d.lineEnd o) q with hlt | heq | hgt
  · exact absurd (hinside (Nat.lt_of_lt_of_le hlt hq) hstop) (hnone _ hge hlt)
  · exact heq
  · exact absurd (hinside (Nat.lt_of_lt_of_le hgt hlen) hend) (hfree q hle hgt)

/-- A walk back stops at the line start. -/
theorem walkBack_spec (text : Array Char) (pos : Nat) :
    walkBack (text[·]?) pos ≤ pos ∧ IsLineStart text (walkBack (text[·]?) pos) ∧
      ∀ i, walkBack (text[·]?) pos ≤ i → i < pos → text[i]? ≠ some '\n' := by
  induction pos with
  | zero => exact ⟨Nat.le_refl 0, isLineStart_zero, fun i _ hi => absurd hi (Nat.not_lt_zero i)⟩
  | succ p ih =>
      rw [walkBack]
      by_cases hnl : text[p]? = some '\n'
      · rw [if_pos hnl]
        exact ⟨Nat.le_refl _, isLineStart_succ hnl, fun i hle hlt => absurd hlt (Nat.not_lt.2 hle)⟩
      · rw [if_neg hnl]
        obtain ⟨hle, hstart, hnone⟩ := ih
        refine ⟨Nat.le_succ_of_le hle, hstart, ?_⟩
        intro i hi hlt
        rcases Nat.eq_or_lt_of_le (Nat.le_of_lt_succ hlt) with rfl | hlt
        · exact hnl
        · exact hnone i hi hlt

/-- A walk on stops at the line end. -/
theorem walkOn_spec (text : Array Char) {room pos : Nat} (h : pos + room = text.size) :
    pos ≤ walkOn (text[·]?) room pos ∧ walkOn (text[·]?) room pos ≤ text.size ∧
      AtLineEnd text (walkOn (text[·]?) room pos) ∧
      ∀ i, pos ≤ i → i < walkOn (text[·]?) room pos → text[i]? ≠ some '\n' := by
  induction room generalizing pos with
  | zero =>
      have hend : AtLineEnd text pos := .inl (Array.getElem?_eq_none_iff.2 (Nat.le_of_eq h.symm))
      exact ⟨Nat.le_refl _, Nat.le_of_eq h, hend, fun i hle hlt => absurd hlt (Nat.not_lt.2 hle)⟩
  | succ room ih =>
      rw [walkOn]
      by_cases hnl : text[pos]? = some '\n'
      · rw [if_pos hnl]
        have hsize : pos ≤ text.size := h ▸ Nat.le_add_right _ _
        exact ⟨Nat.le_refl _, hsize, .inr hnl, fun i hle hlt => absurd hlt (Nat.not_lt.2 hle)⟩
      · rw [if_neg hnl]
        obtain ⟨hle, hsize, hend, hnone⟩ := @ih (pos + 1) (by omega)
        refine ⟨Nat.le_of_succ_le hle, hsize, hend, ?_⟩
        intro i hi hlt
        rcases Nat.eq_or_lt_of_le hi with rfl | hgt
        · exact hnl
        · exact hnone i hgt hlt

/-- The text of a document, with nothing else. -/
def plain : PlainText := ⟨d.chars⟩

/-- Line starts found by their bytes are those that a walk back over the chars comes to. -/
theorem lineStart_eq_walk (o : Nat) : d.lineStart o = Readable.lineStart d.plain o := by
  obtain ⟨hle, hstart, hnone⟩ := walkBack_spec d.chars (min o d.length)
  rw [d.lineStart_eq hle hstart hnone, d.length_eq]
  rfl

/-- Line ends found by their bytes are those that a walk on over the chars comes to. -/
theorem lineEnd_eq_walk (o : Nat) : d.lineEnd o = Readable.lineEnd d.plain o := by
  have hroom : min o d.length + (d.length - min o d.length) = d.chars.size := by
    rw [d.length_eq]
    exact Nat.add_sub_cancel' (Nat.min_le_right _ _)
  obtain ⟨hle, hsize, hend, hnone⟩ := walkOn_spec d.chars hroom
  rw [d.lineEnd_eq hle (d.length_eq ▸ hsize) hend hnone, d.length_eq]
  rfl

/-- An offset is snapped forward to the line start that a walk on comes to. -/
theorem snapForward_eq_walk (o : Nat) : d.snapForward o = Readable.snapForward d.plain o := by
  show (if o = 0 ∨ d.length ≤ o ∨ d.charAt? (o - 1) = some '\n' then min o d.length
    else min (d.lineEnd o + 1) d.length) = _
  rw [lineEnd_eq_walk, charAt?_eq, d.length_eq]
  rfl

/-- An extent is widened to the lines that walks from its ends come to. -/
theorem snapToLines_eq_walk (e : Extent) : d.snapToLines e = Readable.snapToLines d.plain e := by
  show Extent.mk (d.lineStart (min e.start d.length))
    (max (min (d.lineEnd (min (max e.stop e.start) d.length) + 1) d.length)
      (d.lineStart (min e.start d.length))) = _
  rw [lineStart_eq_walk, lineEnd_eq_walk, d.length_eq]
  rfl

/-! ## Reading -/

/-- Every way to read a document gives what the list of its chars has. -/
structure Reads (d : Document) (cs : List Char) : Prop where
  length       : d.length = cs.length
  text         : d.text = String.ofList cs
  charAt?      : ∀ o, d.charAt? o = cs[o]?
  slice        : ∀ e, (d.slice e).toList = (cs.drop e.start).take (e.stop - e.start)
  /-- Every 64th char is marked where its code begins. -/
  marks        : ∀ k, k = 0 ∨ k * markStride < cs.length →
    d.marks[k]? = some (utf8 (cs.take (k * markStride))).length
  /-- Byte offsets are those of the encoded text, and lead back to chars. -/
  byteOffset   : ∀ o, d.byteOffset o = (utf8 (cs.take o)).length
  roundTrip    : ∀ o, d.charOffset (d.byteOffset o) = min o cs.length
  wayBack      : ∀ byte, IsBoundary cs byte → d.byteOffset (d.charOffset byte) = byte
  /-- Lines are those of a text that is nothing but its chars. -/
  lineStart    : ∀ o, d.lineStart o = Readable.lineStart (PlainText.mk cs.toArray) o
  lineEnd      : ∀ o, d.lineEnd o = Readable.lineEnd (PlainText.mk cs.toArray) o
  snapForward  : ∀ o, d.snapForward o = Readable.snapForward (PlainText.mk cs.toArray) o
  snapToLines  : ∀ e, d.snapToLines e = Readable.snapToLines (PlainText.mk cs.toArray) e

/-- **A document reads as its chars.** -/
theorem reads (d : Document) : d.Reads d.chars.toList where
  length := d.length_toList.symm
  text := d.text_eq
  charAt? o := by
    rw [charAt?_eq, Array.getElem?_toList]
  slice e := by
    rw [slice_eq, Array.toList_extract, List.extract_eq_take_drop]
  marks k hk := d.getElem?_marks (d.length_toList ▸ hk)
  byteOffset := d.byteOffset_eq
  roundTrip o := by
    rw [length_toList]
    exact d.charOffset_byteOffset o
  wayBack _ h := d.byteOffset_charOffset h
  lineStart := d.lineStart_eq_walk
  lineEnd := d.lineEnd_eq_walk
  snapForward := d.snapForward_eq_walk
  snapToLines := d.snapToLines_eq_walk

end Document

/-! ## Edits -/

namespace Change

theorem take_min (cs : List Char) (n : Nat) : cs.take (min n cs.length) = cs.take n :=
  List.take_eq_take_min.symm

theorem drop_min (cs : List Char) (n : Nat) : cs.drop (min n cs.length) = cs.drop n := by
  by_cases hn : n ≤ cs.length
  · rw [Nat.min_eq_left hn]
  · have hn := Nat.le_of_not_le hn
    rw [Nat.min_eq_right hn, List.drop_length, List.drop_of_length_le hn]

/-- A change of a list of chars, and the chars that it takes out.  Offsets past the end are taken
    to be the end, and a reversed extent takes out nothing. -/
def onChars (cs : List Char) : Change → List Char × List Char
  | .insert pos text =>
    let at' := min pos cs.length
    (cs.take at' ++ text.toList ++ cs.drop at', [])
  | .delete range =>
    let start := min range.start cs.length
    let stop := min range.stop cs.length
    if start < stop then (cs.take start ++ cs.drop stop, (cs.drop start).take (stop - start))
    else (cs, [])

/-- A document after a change, and the chars taken out. -/
def make (d : Document) : Change → Document × Array Char
  | .insert pos text => (d.insert pos text, #[])
  | .delete range => d.remove range

/-- To insert is to splice the list. -/
theorem toList_insert (d : Document) (pos : Nat) (text : Array Char) :
    (d.insert pos text).chars.toList =
      d.chars.toList.take pos ++ text.toList ++ d.chars.toList.drop pos := by
  rw [d.chars_insert, Array.toList_append, Array.toList_append, Array.toList_extract,
    Array.toList_extract, List.extract_eq_take_drop, List.extract_eq_take_drop, List.drop_zero,
    Nat.sub_zero, ← Array.length_toList, ← List.length_drop, List.take_length]

/-- To remove is to cut the extent out of the list. -/
theorem toList_remove (d : Document) {range : Extent} (h : range.start < range.stop) :
    (d.remove range).1.chars.toList =
      d.chars.toList.take range.start ++ d.chars.toList.drop range.stop := by
  rw [(d.chars_remove h).1, Array.toList_append, Array.toList_extract, List.extract_eq_take_drop,
    Array.toList_extract, List.extract_eq_take_drop, List.drop_zero, Nat.sub_zero,
    ← Array.length_toList, ← List.length_drop, List.take_length]

/-- **A change of a document** is that change of the list of its chars. -/
theorem make_toList (d : Document) (c : Change) :
    ((c.make d).1.chars.toList, (c.make d).2.toList) = c.onChars d.chars.toList := by
  cases c with
  | insert pos text =>
      show ((d.insert pos text).chars.toList, []) = _
      rw [toList_insert, onChars, take_min, drop_min]
  | delete range =>
      show ((d.remove range).1.chars.toList, (d.remove range).2.toList) = _
      rw [d.remove_snd, d.reads.slice, onChars, take_min, drop_min, drop_min]
      by_cases hsome : range.start < range.stop
      · rw [toList_remove d hsome]
        by_cases hin : min range.start d.chars.toList.length < min range.stop d.chars.toList.length
        · rw [if_pos hin]
          refine Prod.ext rfl (List.take_eq_take_iff.2 ?_)
          rw [List.length_drop]
          omega
        · -- The extent lies past the end.
          have hpast : d.chars.toList.length ≤ range.start := by omega
          rw [if_neg hin, List.take_of_length_le hpast, List.drop_of_length_le hpast,
            List.drop_of_length_le (by omega), List.append_nil, List.take_nil]
      · have hrev := Nat.le_of_not_lt hsome
        rw [if_neg (by omega), d.remove_of_le hrev, Nat.sub_eq_zero_of_le hrev, List.take_zero]

/-- Changes of a document one after the other, and the chars that each takes out. -/
def makeAll (d : Document) : List Change → Document × List (Array Char)
  | [] => (d, [])
  | c :: cs =>
    let (d, removed) := c.make d
    let (d, more) := makeAll d cs
    (d, removed :: more)

/-- Changes of a list of chars one after the other, and the chars that each takes out. -/
def allOnChars (cs : List Char) : List Change → List Char × List (List Char)
  | [] => (cs, [])
  | c :: changes =>
    let (cs, removed) := c.onChars cs
    let (cs, more) := allOnChars cs changes
    (cs, removed :: more)

/-- Along any changes the document goes with its list, and so does what is taken out. -/
theorem makeAll_toList (d : Document) (changes : List Change) :
    ((makeAll d changes).1.chars.toList, (makeAll d changes).2.map Array.toList) =
      allOnChars d.chars.toList changes := by
  induction changes generalizing d with
  | nil => rfl
  | cons c changes ih =>
      rw [allOnChars, ← make_toList d c, makeAll]
      simp only
      rw [← ih]
      rfl

end Change

/-- **A document is the list of its chars.**  Whatever text it begins with, and whatever edits are
    made to it, also past the end and with reversed extents, it reads as the list that the edits
    lead to, and every edit takes out the chars that it takes out of the list. -/
theorem Document.refines_chars (text : Array Char) (changes : List Change) :
    (Change.makeAll (ofChars text) changes).1.Reads (Change.allOnChars text.toList changes).1 ∧
      (Change.makeAll (ofChars text) changes).2.map Array.toList =
        (Change.allOnChars text.toList changes).2 := by
  have hall := Change.makeAll_toList (ofChars text) changes
  rw [chars_ofChars] at hall
  refine ⟨?_, congrArg Prod.snd hall⟩
  have hchars : (Change.makeAll (ofChars text) changes).1.chars.toList =
      (Change.allOnChars text.toList changes).1 := congrArg Prod.fst hall
  have hreads := (Change.makeAll (ofChars text) changes).1.reads
  rwa [hchars] at hreads

end Highlighter
