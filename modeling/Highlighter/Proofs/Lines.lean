import Highlighter.Proofs.Bytes
import Highlighter.Regex

/-! # Lines — what a position sees of its line

    A position sees the char before it and the rest of its line.  An end of the text
    looks like a newline from both sides.  Two positions that see the same can be told
    apart only by what lies on other lines, and that is what "line-local" will mean.
    The line arithmetic of documents is brought to the same terms here: a line start is
    a position with a newline before it. -/

namespace Highlighter

variable {text text' : Array Char}

/-- The char before a position; a newline stands before the start of the text. -/
def charBefore (text : Array Char) (p : Nat) : Char := (Regex.charBefore? text p).getD '\n'

/-- The chars from a position to the end of its line, without the newline. -/
def restOfLine (text : Array Char) (p : Nat) : List Char :=
  (text.toList.drop p).takeWhile (· ≠ '\n')

/-- A line begins at the position. -/
def IsLineStart (text : Array Char) (p : Nat) : Prop := charBefore text p = '\n'

instance (text : Array Char) (p : Nat) : Decidable (IsLineStart text p) :=
  inferInstanceAs (Decidable (_ = _))

/-- Two positions see the same: the char before, and the rest of the line. -/
structure SameLine (text : Array Char) (p : Nat) (text' : Array Char) (p' : Nat) : Prop where
  before : charBefore text p = charBefore text' p'
  rest   : restOfLine text p = restOfLine text' p'

theorem SameLine.symm {p p' : Nat} (h : SameLine text p text' p') : SameLine text' p' text p :=
  ⟨h.before.symm, h.rest.symm⟩

@[simp] theorem charBefore_zero : charBefore text 0 = '\n' := rfl

@[simp] theorem charBefore_succ (p : Nat) : charBefore text (p + 1) = text[p]?.getD '\n' := rfl

/-- Texts that agree up to a place have the same char before it. -/
theorem charBefore_congr {p : Nat} (h : ∀ i < p, text'[i]? = text[i]?) :
    charBefore text' p = charBefore text p := by
  cases p with
  | zero => rfl
  | succ p => rw [charBefore_succ, charBefore_succ, h p (Nat.lt_succ_self p)]

/-- A line begins where the text does. -/
theorem isLineStart_zero : IsLineStart text 0 := rfl

/-- A line begins behind a newline. -/
theorem isLineStart_succ {p : Nat} (h : text[p]? = some '\n') : IsLineStart text (p + 1) := by
  show text[p]?.getD '\n' = '\n'
  rw [h]
  rfl

/-- Just before a line start inside the text stands a newline. -/
theorem IsLineStart.getElem? {p : Nat} (h : IsLineStart text p) (hpos : 0 < p)
    (hle : p ≤ text.size) : text[p - 1]? = some '\n' := by
  obtain ⟨q, rfl⟩ : ∃ q, p = q + 1 := ⟨p - 1, by omega⟩
  have hq : q < text.size := by omega
  have hb : text[q]?.getD '\n' = '\n' := h
  rw [Nat.add_sub_cancel]
  rw [Array.getElem?_eq_getElem hq] at hb ⊢
  exact congrArg some hb

/-! ## The rest of a line -/

/-- A char that is no newline belongs to its line. -/
theorem restOfLine_of_char {p : Nat} {c : Char} (h : text[p]? = some c) (hc : c ≠ '\n') :
    restOfLine text p = c :: restOfLine text (p + 1) := by
  have hp : p < text.toList.length := by
    rw [Array.length_toList]
    exact Regex.lt_size_of_getElem? h
  have hget : text.toList[p] = c := by
    have := (Array.getElem?_eq_some_iff.1 h).2
    rwa [Array.getElem_toList]
  unfold restOfLine
  rw [List.drop_eq_getElem_cons hp, hget, List.takeWhile_cons_of_pos (by simpa using hc)]

theorem restOfLine_of_newline {p : Nat} (h : text[p]? = some '\n') : restOfLine text p = [] := by
  have hp : p < text.toList.length := by
    rw [Array.length_toList]
    exact Regex.lt_size_of_getElem? h
  have hget : text.toList[p] = '\n' := by
    have := (Array.getElem?_eq_some_iff.1 h).2
    rwa [Array.getElem_toList]
  unfold restOfLine
  rw [List.drop_eq_getElem_cons hp, hget, List.takeWhile_cons_of_neg (by simp)]

theorem restOfLine_of_end {p : Nat} (h : text[p]? = none) : restOfLine text p = [] := by
  have hp : text.toList.length ≤ p := by
    rw [Array.length_toList]
    exact Array.getElem?_eq_none_iff.1 h
  unfold restOfLine
  rw [List.drop_eq_nil_of_le hp, List.takeWhile_nil]

/-- A position is at the end of its line: a newline stands there, or nothing. -/
def AtLineEnd (text : Array Char) (p : Nat) : Prop :=
  text[p]? = none ∨ text[p]? = some '\n'

theorem restOfLine_of_atLineEnd {p : Nat} (h : AtLineEnd text p) : restOfLine text p = [] :=
  h.elim restOfLine_of_end restOfLine_of_newline

/-- A position is at the end of its line, or there is a char of the line. -/
theorem atLineEnd_or_char (text : Array Char) (p : Nat) :
    AtLineEnd text p ∨ ∃ c, text[p]? = some c ∧ c ≠ '\n' := by
  cases h : text[p]? with
  | none => exact .inl (.inl h)
  | some c =>
      by_cases hc : c = '\n'
      · exact .inl (.inr (hc ▸ h))
      · exact .inr ⟨c, rfl, hc⟩

/-- Nothing is left of a line at its end. -/
theorem restOfLine_eq_nil_iff {p : Nat} : restOfLine text p = [] ↔ AtLineEnd text p := by
  constructor
  · intro h
    rcases atLineEnd_or_char text p with hend | ⟨c, hc, hne⟩
    · exact hend
    · rw [restOfLine_of_char hc hne] at h
      exact absurd h (List.cons_ne_nil _ _)
  · exact restOfLine_of_atLineEnd

/-- The position where a line ends. -/
def lineStop (text : Array Char) (p : Nat) : Nat := p + (restOfLine text p).length

theorem le_lineStop (p : Nat) : p ≤ lineStop text p := Nat.le_add_right _ _

/-- A line goes on behind a char that is no newline. -/
theorem lineStop_of_char {p : Nat} {c : Char} (h : text[p]? = some c) (hc : c ≠ '\n') :
    lineStop text p = lineStop text (p + 1) := by
  unfold lineStop
  rw [restOfLine_of_char h hc, List.length_cons]
  omega

theorem lineStop_of_atLineEnd {p : Nat} (h : AtLineEnd text p) : lineStop text p = p := by
  unfold lineStop
  rw [restOfLine_of_atLineEnd h]
  rfl

/-- A line does not reach past the end of a line that is met on the way. -/
theorem lineStop_le {p q : Nat} (hpq : p ≤ q) (h : AtLineEnd text q) : lineStop text p ≤ q := by
  obtain ⟨n, rfl⟩ := Nat.exists_eq_add_of_le hpq
  clear hpq
  induction n generalizing p with
  | zero => exact Nat.le_of_eq (lineStop_of_atLineEnd h)
  | succ n ih =>
      rcases atLineEnd_or_char text p with hend | ⟨c, hc, hne⟩
      · rw [lineStop_of_atLineEnd hend]
        omega
      · have := ih (p := p + 1) (by rwa [Nat.add_assoc, Nat.add_comm 1])
        rw [lineStop_of_char hc hne]
        omega

/-- Every position of a line has the same end of it. -/
theorem lineStop_eq {p q : Nat} (hpq : p ≤ q) (hq : q ≤ lineStop text p) :
    lineStop text q = lineStop text p := by
  obtain ⟨n, rfl⟩ := Nat.exists_eq_add_of_le hpq
  clear hpq
  induction n generalizing p with
  | zero => rfl
  | succ n ih =>
      rcases atLineEnd_or_char text p with hend | ⟨c, hc, hne⟩
      · rw [lineStop_of_atLineEnd hend] at hq
        omega
      · rw [lineStop_of_char hc hne] at hq ⊢
        rw [Nat.add_comm n 1, ← Nat.add_assoc] at hq ⊢
        exact ih hq

/-- What positions see is the same when the texts agree up to the end of a line. -/
theorem SameLine.of_agree {p p' n : Nat} (hbefore : charBefore text p = charBefore text' p')
    (hagree : ∀ i ≤ n, text[p + i]? = text'[p' + i]?) (hend : AtLineEnd text (p + n)) :
    SameLine text p text' p' := by
  refine ⟨hbefore, ?_⟩
  clear hbefore
  induction n generalizing p p' with
  | zero =>
      have h0 : text[p]? = text'[p']? := hagree 0 (Nat.le_refl 0)
      have hstop : AtLineEnd text p := hend
      have hstop' : AtLineEnd text' p' := by
        unfold AtLineEnd at hstop ⊢
        rwa [← h0]
      rw [restOfLine_of_atLineEnd hstop, restOfLine_of_atLineEnd hstop']
  | succ n ih =>
      have h0 := hagree 0 (Nat.zero_le _)
      rw [Nat.add_zero, Nat.add_zero] at h0
      rcases atLineEnd_or_char text p with hstop | ⟨c, hc, hne⟩
      · have hstop' : AtLineEnd text' p' := by
          unfold AtLineEnd at hstop ⊢
          rwa [← h0]
        rw [restOfLine_of_atLineEnd hstop, restOfLine_of_atLineEnd hstop']
      · rw [restOfLine_of_char hc hne, restOfLine_of_char (h0.symm.trans hc) hne]
        refine congrArg (c :: ·) (ih ?_ ?_)
        · intro i hi
          have := hagree (i + 1) (Nat.succ_le_succ hi)
          rwa [Nat.add_comm i 1, ← Nat.add_assoc, ← Nat.add_assoc] at this
        · rwa [Nat.add_comm n 1, ← Nat.add_assoc] at hend

/-- Positions that see the same are both at the end of their line, or neither is. -/
theorem SameLine.atLineEnd {p p' : Nat} (h : SameLine text p text' p') (hend : AtLineEnd text p) :
    AtLineEnd text' p' := by
  rw [← restOfLine_eq_nil_iff, ← h.rest]
  exact restOfLine_of_atLineEnd hend

/-- Positions that see the same see the same char. -/
theorem SameLine.char {p p' : Nat} {c : Char} (h : SameLine text p text' p')
    (hc : text[p]? = some c) (hne : c ≠ '\n') : text'[p']? = some c := by
  rcases atLineEnd_or_char text' p' with hend | ⟨c', hc', hne'⟩
  · have hstop := h.symm.atLineEnd hend
    rcases hstop with hstop | hstop
    · rw [hc] at hstop
      exact absurd hstop (Option.some_ne_none c)
    · rw [hc] at hstop
      exact absurd (Option.some.inj hstop) hne
  · have hrest := h.rest
    rw [restOfLine_of_char hc hne, restOfLine_of_char hc' hne'] at hrest
    rw [hc', (List.cons.inj hrest).1]

/-- One char on, positions that see the same still do. -/
theorem SameLine.succ {p p' : Nat} {c : Char} (h : SameLine text p text' p')
    (hc : text[p]? = some c) (hne : c ≠ '\n') : SameLine text (p + 1) text' (p' + 1) := by
  have hc' := h.char hc hne
  refine ⟨?_, ?_⟩
  · rw [charBefore_succ, charBefore_succ, hc, hc']
  · have hrest := h.rest
    rw [restOfLine_of_char hc hne, restOfLine_of_char hc' hne] at hrest
    exact (List.cons.inj hrest).2

/-! ## Line arithmetic of documents

    Lines are found by a search for newlines among the bytes, and what it meets are the
    newlines of the text. -/

namespace Document

variable (doc : Document)

/-- The start of a line is just after the last newline before the offset, or the start of the
    text. -/
theorem lineStart_cases (o : Nat) :
    (∃ b < min o doc.length, doc.chars[b]? = some '\n' ∧ doc.lineStart o = b + 1 ∧
      ∀ i, b < i → i < min o doc.length → doc.chars[i]? ≠ some '\n') ∨
    (doc.lineStart o = 0 ∧ ∀ i < min o doc.length, doc.chars[i]? ≠ some '\n') := by
  -- a newline of the text before the offset is one among the bytes before its byte offset
  have hinside : ∀ {i}, doc.chars[i]? = some '\n' → min i doc.length = i := by
    intro i hnl
    rw [doc.length_eq]
    exact Nat.min_eq_left (Nat.le_of_lt (Regex.lt_size_of_getElem? hnl))
  have hbyte : ∀ i < min o doc.length, doc.chars[i]? = some '\n' →
      doc.byteOffset i < doc.byteOffset o := by
    intro i hi hnl
    rwa [byteOffset_lt_iff, hinside hnl]
  rw [lineStart]
  cases hlast : lastByte? doc.bytes newlineByte (doc.byteOffset o) with
  | none =>
      refine .inr ⟨rfl, ?_⟩
      intro i hi hnl
      exact lastByte?_eq_none hlast _ (hbyte i hi hnl) (doc.newlineByte_iff.2 ⟨i, hnl, rfl⟩)
  | some byte =>
      obtain ⟨hlt, hfound, hbehind⟩ := lastByte?_eq_some hlast
      obtain ⟨b, hnl, rfl⟩ := doc.newlineByte_iff.1 hfound
      rw [byteOffset_lt_iff, hinside hnl] at hlt
      refine .inl ⟨b, hlt, hnl, ?_, ?_⟩
      · have hnext := doc.byteOffset_succ hnl
        rw [show Char.utf8Size '\n' = 1 from rfl] at hnext
        simp only
        rw [← hnext, charOffset_byteOffset]
        omega
      · intro i hi hio hnl'
        have hmore : doc.byteOffset b < doc.byteOffset i := by
          rwa [byteOffset_lt_iff, hinside hnl, hinside hnl']
        exact hbehind _ hmore (hbyte i hio hnl') (doc.newlineByte_iff.2 ⟨i, hnl', rfl⟩)

/-- The end of a line is the first newline at or after the offset, or the end of the text. -/
theorem lineEnd_cases (o : Nat) :
    (∃ b, min o doc.length ≤ b ∧ doc.chars[b]? = some '\n' ∧ doc.lineEnd o = b ∧
      ∀ i, min o doc.length ≤ i → i < b → doc.chars[i]? ≠ some '\n') ∨
    (doc.lineEnd o = doc.length ∧ ∀ i, min o doc.length ≤ i → doc.chars[i]? ≠ some '\n') := by
  have hinside : ∀ {i}, doc.chars[i]? = some '\n' → i < doc.length := by
    intro i hnl
    rw [doc.length_eq]
    exact Regex.lt_size_of_getElem? hnl
  have hbyte : ∀ {i}, doc.chars[i]? = some '\n' →
      (doc.byteOffset o ≤ doc.byteOffset i ↔ min o doc.length ≤ i) := by
    intro i hnl
    rw [← Nat.not_lt, byteOffset_lt_iff, Nat.min_eq_left (Nat.le_of_lt (hinside hnl)), Nat.not_lt]
  simp only [lineEnd]
  cases hfirst : firstByte? doc.bytes newlineByte (doc.bytes.size - doc.byteOffset o)
    (doc.byteOffset o) with
  | none =>
      refine .inr ⟨rfl, ?_⟩
      intro i hi hnl
      have hsize : doc.byteOffset i < doc.bytes.size := by
        have hfound := doc.newlineByte_iff.2 ⟨i, hnl, rfl⟩
        exact (getElem?_eq_some_iff.1 hfound).1
      refine firstByte?_eq_none hfirst _ ((hbyte hnl).2 hi) (by omega)
        (doc.newlineByte_iff.2 ⟨i, hnl, rfl⟩)
  | some byte =>
      obtain ⟨hle, hfound, hbefore⟩ := firstByte?_eq_some hfirst
      obtain ⟨b, hnl, rfl⟩ := doc.newlineByte_iff.1 hfound
      have hb := hinside hnl
      refine .inl ⟨b, (hbyte hnl).1 hle, hnl, ?_, ?_⟩
      · simp only
        rw [charOffset_byteOffset, Nat.min_eq_left (Nat.le_of_lt hb)]
      · intro i hi hib hnl'
        have hless : doc.byteOffset i < doc.byteOffset b := by
          rw [byteOffset_lt_iff]
          omega
        exact hbefore _ ((hbyte hnl').2 hi) hless (doc.newlineByte_iff.2 ⟨i, hnl', rfl⟩)

/-- A line starts at the offset or before it. -/
theorem lineStart_le (o : Nat) : doc.lineStart o ≤ min o doc.length := by
  rcases doc.lineStart_cases o with ⟨b, hb, -, heq, -⟩ | ⟨heq, -⟩
  · rw [heq]
    exact hb
  · rw [heq]
    exact Nat.zero_le _

/-- At the line start that is found a line begins. -/
theorem isLineStart_lineStart (o : Nat) : IsLineStart doc.chars (doc.lineStart o) := by
  rcases doc.lineStart_cases o with ⟨b, -, hnl, heq, -⟩ | ⟨heq, -⟩
  · rw [heq]
    exact isLineStart_succ hnl
  · rw [heq]
    exact isLineStart_zero

/-- A line start at or before an offset lies at or before the start of the line. -/
theorem le_lineStart {o q : Nat} (hq : IsLineStart doc.chars q) (hle : q ≤ min o doc.length) :
    q ≤ doc.lineStart o := by
  cases q with
  | zero => exact Nat.zero_le _
  | succ p =>
      have hsize : p + 1 ≤ doc.chars.size := by
        rw [← doc.length_eq]
        exact Nat.le_trans hle (Nat.min_le_right _ _)
      have hp : doc.chars[p]? = some '\n' := hq.getElem? (Nat.succ_pos p) hsize
      rcases doc.lineStart_cases o with ⟨b, -, -, heq, hnone⟩ | ⟨-, hnone⟩
      · rw [heq]
        exact Nat.succ_le_succ (Nat.not_lt.1 fun hlt => hnone p hlt hle hp)
      · exact absurd hp (hnone p hle)

/-- Line starts are in the order of the offsets. -/
theorem lineStart_mono {o o' : Nat} (h : o ≤ o') : doc.lineStart o ≤ doc.lineStart o' := by
  have := doc.lineStart_le o
  exact doc.le_lineStart (doc.isLineStart_lineStart o) (by omega)

/-- The line end of an offset: at or after it, at the end of a line, and with no newline between
    them. -/
theorem lineEnd_spec (o : Nat) :
    min o doc.length ≤ doc.lineEnd o ∧ doc.lineEnd o ≤ doc.length ∧
      AtLineEnd doc.chars (doc.lineEnd o) ∧
      ∀ i, min o doc.length ≤ i → i < doc.lineEnd o → doc.chars[i]? ≠ some '\n' := by
  rcases doc.lineEnd_cases o with ⟨b, hle, hnl, heq, hnone⟩ | ⟨heq, hnone⟩
  · rw [heq, doc.length_eq]
    exact ⟨doc.length_eq ▸ hle, Nat.le_of_lt (Regex.lt_size_of_getElem? hnl), .inr hnl,
      doc.length_eq ▸ hnone⟩
  · rw [heq]
    refine ⟨Nat.min_le_right _ _, Nat.le_refl _, .inl ?_, fun i hi _ => hnone i hi⟩
    exact Array.getElem?_eq_none_iff.2 (Nat.le_of_eq doc.length_eq.symm)

theorem lineEnd_le (o : Nat) : doc.lineEnd o ≤ doc.length := (doc.lineEnd_spec o).2.1

/-- A line ends at the offset or behind it. -/
theorem le_lineEnd {o : Nat} (h : o ≤ doc.length) : o ≤ doc.lineEnd o := by
  have := (doc.lineEnd_spec o).1
  rwa [Nat.min_eq_left h] at this

/-- Line ends are in the order of the offsets. -/
theorem lineEnd_mono {o o' : Nat} (h : o ≤ o') : doc.lineEnd o ≤ doc.lineEnd o' := by
  obtain ⟨-, hle, -, hnone⟩ := doc.lineEnd_spec o
  obtain ⟨hge', -, hend, -⟩ := doc.lineEnd_spec o'
  -- otherwise the end of the later line would lie inside the earlier one
  refine Nat.not_lt.1 ?_
  intro hlt
  rcases hend with hout | hnl
  · have := Array.getElem?_eq_none_iff.1 hout
    have := doc.length_eq
    omega
  · exact hnone (doc.lineEnd o') (by omega) (by omega) hnl

/-- The end of a line is at the end of its line. -/
theorem lineEnd_lineEnd (o : Nat) : doc.lineEnd (doc.lineEnd o) = doc.lineEnd o := by
  have hle := doc.lineEnd_le o
  have hge := doc.le_lineEnd hle
  rcases Nat.eq_or_lt_of_le hge with heq | hlt
  · exact heq.symm
  · have hbefore := (doc.lineEnd_spec (doc.lineEnd o)).2.2.2 (doc.lineEnd o) (by omega) hlt
    have hle' := doc.lineEnd_le (doc.lineEnd o)
    rcases (doc.lineEnd_spec o).2.2.1 with hnone | hnl
    · have := Array.getElem?_eq_none_iff.1 hnone
      have := doc.length_eq
      omega
    · exact absurd hnl hbefore

/-- Just after the end of a line another one begins, unless the text ends there. -/
theorem isLineStart_lineEnd_succ {o : Nat} (h : doc.lineEnd o < doc.length) :
    IsLineStart doc.chars (doc.lineEnd o + 1) := by
  rcases (doc.lineEnd_spec o).2.2.1 with hend | hnl
  · have := Array.getElem?_eq_none_iff.1 hend
    exact absurd h (Nat.not_lt.2 (doc.length_eq ▸ this))
  · exact isLineStart_succ hnl

/-- A line start past an offset lies past the end of its line. -/
theorem lineEnd_lt {o q : Nat} (hq : IsLineStart doc.chars q) (hlt : o < q)
    (hle : q ≤ doc.length) : doc.lineEnd o < q := by
  have hnl := hq.getElem? (by omega) (doc.length_eq ▸ hle)
  have hmin : min o doc.length ≤ q - 1 := by omega
  by_cases h : q - 1 < doc.lineEnd o
  · exact absurd hnl ((doc.lineEnd_spec o).2.2.2 (q - 1) hmin h)
  · omega

/-- An end of a text or of a line: where a cut takes no line apart. -/
def IsLineBreak (doc : Document) (p : Nat) : Prop :=
  p ≤ doc.length ∧ (IsLineStart doc.chars p ∨ p = doc.length)

/-- Behind a line end the text can be cut. -/
theorem isLineBreak_lineEnd_succ (o : Nat) :
    doc.IsLineBreak (min (doc.lineEnd o + 1) doc.length) := by
  refine ⟨Nat.min_le_right _ _, ?_⟩
  by_cases h : doc.lineEnd o < doc.length
  · rw [Nat.min_eq_left h]
    exact .inl (doc.isLineStart_lineEnd_succ h)
  · exact .inr (Nat.min_eq_right (by omega))

/-- Where nothing is snapped: at a line start, and from the end of the text on. -/
theorem snaps_iff (o : Nat) : (o = 0 ∨ doc.length ≤ o ∨ doc.chars[o - 1]? = some '\n') ↔
    (IsLineStart doc.chars o ∨ doc.length ≤ o) := by
  constructor
  · rintro (rfl | h | h)
    · exact .inl isLineStart_zero
    · exact .inr h
    · cases o with
      | zero => exact .inl isLineStart_zero
      | succ b => exact .inl (isLineStart_succ h)
  · rintro (h | h)
    · by_cases hle : o ≤ doc.length
      · by_cases hpos : 0 < o
        · exact .inr (.inr (h.getElem? hpos (doc.length_eq ▸ hle)))
        · exact .inl (by omega)
      · exact .inr (.inl (by omega))
    · exact .inr (.inl h)

/-- An offset at a line start stays where it is, and another goes on to the next one. -/
theorem snapForward_eq (o : Nat) :
    doc.snapForward o =
      if IsLineStart doc.chars o ∨ doc.length ≤ o then min o doc.length
      else min (doc.lineEnd o + 1) doc.length := by
  show (if o = 0 ∨ doc.length ≤ o ∨ doc.charAt? (o - 1) = some '\n' then min o doc.length
    else min (doc.lineEnd o + 1) doc.length) = _
  rw [charAt?_eq]
  by_cases h : IsLineStart doc.chars o ∨ doc.length ≤ o
  · rw [if_pos h, if_pos ((doc.snaps_iff o).2 h)]
  · rw [if_neg h, if_neg fun h' => h ((doc.snaps_iff o).1 h')]

/-- At an offset snapped forward the text can be cut. -/
theorem isLineBreak_snapForward (o : Nat) : doc.IsLineBreak (doc.snapForward o) := by
  rw [snapForward_eq]
  split
  · rename_i h
    refine ⟨Nat.min_le_right _ _, ?_⟩
    by_cases hle : o ≤ doc.length
    · rw [Nat.min_eq_left hle]
      exact h.imp id fun h => Nat.le_antisymm hle h
    · exact .inr (by omega)
  · exact doc.isLineBreak_lineEnd_succ o

theorem le_snapForward {o : Nat} (h : o ≤ doc.length) : o ≤ doc.snapForward o := by
  have := doc.le_lineEnd h
  rw [snapForward_eq]
  split <;> omega

theorem snapToLines_stop_le (e : Extent) : (doc.snapToLines e).stop ≤ doc.length := by
  have hstart := doc.lineStart_le (min e.start doc.length)
  show max (min (doc.lineEnd (min (max e.stop e.start) doc.length) + 1) doc.length)
    (doc.lineStart (min e.start doc.length)) ≤ doc.length
  omega

/-- Whole lines around a part of an extent are among those around the extent. -/
theorem snapToLines_mono {e e' : Extent} (hstart : e.start ≤ e'.start) (hle : e'.start ≤ e'.stop)
    (hstop : e'.stop ≤ e.stop) :
    (doc.snapToLines e).start ≤ (doc.snapToLines e').start ∧
      (doc.snapToLines e').stop ≤ (doc.snapToLines e).stop := by
  have hfirst := doc.lineStart_mono (show min e.start doc.length ≤ min e'.start doc.length by omega)
  have hlast := doc.lineEnd_mono
    (show min (max e'.stop e'.start) doc.length ≤ min (max e.stop e.start) doc.length by omega)
  have hinside := doc.lineStart_le (min e'.start doc.length)
  have hreach := doc.le_lineEnd (show min (max e.stop e.start) doc.length ≤ doc.length by omega)
  refine ⟨hfirst, ?_⟩
  show max (min (doc.lineEnd (min (max e'.stop e'.start) doc.length) + 1) doc.length)
      (doc.lineStart (min e'.start doc.length)) ≤
    max (min (doc.lineEnd (min (max e.stop e.start) doc.length) + 1) doc.length)
      (doc.lineStart (min e.start doc.length))
  omega

/-- Whole lines around an extent of the text. -/
theorem snapToLines_eq {e : Extent} (hle : e.start ≤ e.stop) (hstop : e.stop ≤ doc.length) :
    doc.snapToLines e = ⟨doc.lineStart e.start, min (doc.lineEnd e.stop + 1) doc.length⟩ := by
  have hmin : min e.start doc.length = e.start := Nat.min_eq_left (Nat.le_trans hle hstop)
  have hmax : max e.stop e.start = e.stop := Nat.max_eq_left hle
  have hmin' : min e.stop doc.length = e.stop := Nat.min_eq_left hstop
  have hstart := doc.lineStart_le e.start
  have hend := doc.le_lineEnd hstop
  show Extent.mk (doc.lineStart (min e.start doc.length))
    (max (min (doc.lineEnd (min (max e.stop e.start) doc.length) + 1) doc.length)
      (doc.lineStart (min e.start doc.length))) = _
  rw [hmin, hmax, hmin', Nat.max_eq_left (by omega)]

end Document

end Highlighter
