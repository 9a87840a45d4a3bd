import Highlighter.Document

/-! # Bytes — from a byte back to its char

    A byte offset is the length of the code of what comes before it, and from such a length
    the way leads back to the char (`charOffset_byteOffset`): the marks ascend, so the last
    one that is not past a boundary is one before its char, and the chars from there on are
    counted.

    No other char has a newline's byte in its code, so a newline's byte is where the code of
    a newline begins (`newlineByte_iff`), and to search for newlines among the bytes is to
    search among the chars. -/

namespace Highlighter

/-! ## Newlines among bytes -/

theorem eq_ten_of_byte {n : Nat} (h : (10 : UInt8) = UInt8.ofNat n) : n % 256 = 10 := by
  have hval := congrArg UInt8.toNat h
  rw [UInt8.toNat_ofNat'] at hval
  exact hval.symm

/-- **A newline's byte** is in the code of no other char: all bytes of a longer code are 128 or
    more. -/
theorem newline_mem_code {c : Char} : (10 : UInt8) ∈ String.utf8EncodeChar c ↔ c = '\n' := by
  constructor
  · intro h
    apply Char.ext
    apply UInt32.toNat_inj.1
    show c.val.toNat = 10
    rw [String.utf8EncodeChar] at h
    generalize c.val.toNat = v at h ⊢
    split at h
    · have hbyte := eq_ten_of_byte (List.mem_singleton.1 h)
      omega
    · split at h
      · simp only [List.mem_cons, List.not_mem_nil, or_false] at h
        rcases h with h | h <;> have hbyte := eq_ten_of_byte h <;> omega
      · split at h
        · simp only [List.mem_cons, List.not_mem_nil, or_false] at h
          rcases h with h | h | h <;> have hbyte := eq_ten_of_byte h <;> omega
        · simp only [List.mem_cons, List.not_mem_nil, or_false] at h
          rcases h with h | h | h | h <;> have hbyte := eq_ten_of_byte h <;> omega
  · rintro rfl
    decide

theorem code_newline : String.utf8EncodeChar '\n' = [10] := by decide

/-- A newline's byte is where a newline begins. -/
theorem getElem?_utf8_newline {cs : List Char} {i : Nat} : (utf8 cs)[i]? = some 10 ↔
    ∃ o, cs[o]? = some '\n' ∧ i = (utf8 (cs.take o)).length := by
  induction cs generalizing i with
  | nil =>
      constructor
      · intro h
        exact absurd h (by simp)
      · rintro ⟨o, hnl, -⟩
        exact absurd hnl (by simp)
  | cons c cs ih =>
      have hsize : (String.utf8EncodeChar c).length = c.utf8Size := String.length_utf8EncodeChar c
      constructor
      · intro h
        rw [utf8_cons] at h
        rcases Nat.lt_or_ge i (String.utf8EncodeChar c).length with hin | hout
        · -- The byte is in the code of `c`, which is a newline then.
          rw [List.getElem?_append_left hin] at h
          obtain rfl := newline_mem_code.1 (List.mem_of_getElem? h)
          refine ⟨0, rfl, ?_⟩
          rw [code_newline] at hin
          exact Nat.lt_one_iff.1 hin
        · rw [List.getElem?_append_right hout] at h
          obtain ⟨o, hnl, hi⟩ := ih.1 h
          refine ⟨o + 1, hnl, ?_⟩
          rw [List.take_succ_cons, length_utf8_cons, ← hi, ← hsize]
          exact (Nat.add_sub_cancel' hout).symm
      · rintro ⟨o, hnl, rfl⟩
        cases o with
        | zero =>
            obtain rfl := Option.some.inj hnl
            rw [utf8_cons, code_newline]
            rfl
        | succ o =>
            rw [List.take_succ_cons, length_utf8_cons, utf8_cons, ← hsize,
              List.getElem?_append_right (Nat.le_add_right _ _), Nat.add_sub_cancel_left]
            exact ih.2 ⟨o, hnl, rfl⟩

namespace Document

variable (d : Document)

/-- The newline byte stands in the code only where a newline does. -/
theorem newlineByte_iff {i : Nat} : d.bytes[i]? = some newlineByte ↔
    ∃ o, d.chars[o]? = some '\n' ∧ i = d.byteOffset o := by
  rw [d.bytes_eq, getElem?_utf8Encode, newlineByte, getElem?_utf8_newline]
  simp only [byteOffset_eq, Array.getElem?_toList]

/-! ## From bytes to chars -/

theorem length_toList : d.chars.toList.length = d.length := by
  rw [Array.length_toList, d.length_eq]

/-- One char on, the byte offset grows by the length of its code. -/
theorem byteOffset_succ {o : Nat} {c : Char} (h : d.chars[o]? = some c) :
    d.byteOffset (o + 1) = d.byteOffset o + c.utf8Size := by
  rw [← Array.getElem?_toList] at h
  rw [byteOffset_eq, byteOffset_eq, length_utf8_snoc, List.take_add_one, h]
  rfl

/-- Offsets have their place inside the code. -/
theorem byteOffset_le_size (o : Nat) : d.byteOffset o ≤ d.bytes.size := by
  have hsplit := congrArg utf8 (List.take_append_drop o d.chars.toList)
  rw [byteOffset_eq, size_bytes, ← hsplit, utf8_append, List.length_append]
  exact Nat.le_add_right _ _

/-- The mark that a byte is looked for from: the last that is not past it. -/
theorem lastMark_spec (o : Nat) :
    ∃ mark, (d.marks.findIdx? (d.byteOffset o < ·)).getD d.marks.size - 1 = mark ∧
      mark * markStride ≤ o ∧ d.marks.getD mark 0 = d.byteOffset (mark * markStride) := by
  refine ⟨_, rfl, ?_⟩
  have hsize := d.size_marks
  rw [markStride] at hsize
  -- a mark that is not past the byte is the byte offset of a char not past the boundary
  have hmark : ∀ k < d.marks.size, (k = 0 ∨ ¬d.byteOffset o < d.marks.getD k 0) →
      k * markStride ≤ o ∧ d.marks.getD k 0 = d.byteOffset (k * markStride) := by
    intro k hk hbefore
    have hin : k = 0 ∨ k * markStride < d.length := by
      rw [markStride]
      omega
    have hget : d.marks.getD k 0 = d.byteOffset (k * markStride) := by
      rw [Array.getD_eq_getD_getElem?, d.getElem?_marks hin, Option.getD_some, byteOffset_eq]
    refine ⟨?_, hget⟩
    rcases hbefore with rfl | hnot
    · exact Nat.zero_mul markStride ▸ Nat.zero_le o
    · have hlast : k * markStride ≤ d.length := by
        rw [markStride] at hin ⊢
        omega
      rw [hget, byteOffset_lt_iff, Nat.min_eq_left hlast, Nat.not_lt] at hnot
      exact Nat.le_trans hnot (Nat.min_le_left _ _)
  cases hfind : d.marks.findIdx? (d.byteOffset o < ·) with
  | none =>
      rw [Option.getD_none]
      have hlast : d.marks.size - 1 < d.marks.size := by omega
      have hnot := Array.findIdx?_eq_none_iff.1 hfind _ (Array.getElem_mem hlast)
      refine hmark _ hlast (.inr ?_)
      rw [Array.getD_eq_getD_getElem?, Array.getElem?_eq_getElem hlast]
      exact of_decide_eq_false hnot
  | some k =>
      obtain ⟨hk, -, hunder⟩ := Array.findIdx?_eq_some_iff_getElem.1 hfind
      rw [Option.getD_some]
      refine hmark _ (by omega) ?_
      rcases Nat.eq_zero_or_pos k with rfl | hpos
      · exact .inl rfl
      · have hprev : k - 1 < d.marks.size := by omega
        refine .inr fun hlt => hunder (k - 1) (by omega) (decide_eq_true ?_)
        rwa [Array.getD_eq_getD_getElem?, Array.getElem?_eq_getElem hprev] at hlt

/-- **The way back**: from the byte offset of a char to the char. -/
theorem charOffset_byteOffset (o : Nat) : d.charOffset (d.byteOffset o) = min o d.length := by
  rw [← d.byteOffset_min o]
  have ho : min o d.length ≤ d.length := Nat.min_le_right _ _
  generalize min o d.length = o at ho ⊢
  obtain ⟨mark, hfind, hle, hget⟩ := d.lastMark_spec o
  simp only [charOffset]
  rw [Nat.min_eq_left (d.byteOffset_le_size o), hfind, hget]
  -- the chars up to the mark, those from there to the boundary, and the rest
  have hrest := List.take_append_drop o d.chars.toList
  have hsplit := List.take_append_drop (mark * markStride) (d.chars.toList.take o)
  rw [List.take_take, Nat.min_eq_left hle] at hsplit
  have hcount := countChars_between (d.chars.toList.take (mark * markStride))
    ((d.chars.toList.take o).drop (mark * markStride)) (d.chars.toList.drop o)
  rw [← List.append_assoc, hsplit, hrest, ← d.bytes_eq, ← byteOffset_eq, ← byteOffset_eq,
    List.length_drop, List.length_take, length_toList, Nat.min_eq_left ho] at hcount
  rw [hcount]
  exact Nat.add_sub_cancel' hle

/-- A boundary byte is the place of the offset that it has. -/
theorem byteOffset_charOffset {byte : Nat} (h : IsBoundary d.chars.toList byte) :
    d.byteOffset (d.charOffset byte) = byte := by
  obtain ⟨front, back, hcs, rfl⟩ := h
  have hoffset : d.byteOffset front.length = (utf8 front).length := by
    rw [byteOffset_eq, hcs, List.take_left]
  rw [← hoffset, charOffset_byteOffset, byteOffset_min]

end Document

end Highlighter
