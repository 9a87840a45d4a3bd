import Highlighter.Proofs.TokenWalk

/-! # Drawings — the spans of a text from its boundaries

    A rendering is drawn piece by piece: between two boundaries lies a region, which is one
    span, or plain text, whose spans are its tokens.  A drawing can be cut in two at a seam
    (`drawn_append`): at a boundary, or at a line start outside regions.  Its windows are
    drawings themselves when their ends are seams or lie in a region (`clipped_drawing`).

    A drawing needs only the boundaries before its end (`drawing_append`), and it moves
    along with its text and its boundaries (`drawn_shifted`). -/

namespace Highlighter

/-! ## Boundaries ahead -/

/-- Boundaries in order, from an offset on. -/
def Ascends : (p : Nat) → List Boundary → Prop
  | _, [] => True
  | p, b :: rest => p ≤ b.offset ∧ Ascends b.offset rest

/-- The tag that governs an offset, with the tag in force before some boundaries ahead. -/
def tagThrough : (tag : Option Nat) → List Boundary → (o : Nat) → Option Nat
  | tag, [], _ => tag
  | tag, b :: rest, o => if b.offset ≤ o then tagThrough b.tag rest o else tag

/-- The boundaries past an offset. -/
def beyond (bs : List Boundary) (o : Nat) : List Boundary := bs.dropWhile fun b => b.offset ≤ o

section Ahead

variable {bs bs' : List Boundary} {b : Boundary} {p q o o' : Nat} {tag : Option Nat}

/-- Boundaries from an offset on are from any earlier one on. -/
theorem Ascends.mono (h : Ascends p bs) (hle : q ≤ p) : Ascends q bs := by
  cases bs with
  | nil => trivial
  | cons b rest => exact ⟨Nat.le_trans hle h.1, h.2⟩

/-- Boundaries from an offset on do not lie before it. -/
theorem Ascends.le (h : Ascends p bs) (hb : b ∈ bs) : p ≤ b.offset := by
  induction bs generalizing p with
  | nil => exact absurd hb List.not_mem_nil
  | cons b' rest ih =>
      rcases List.mem_cons.1 hb with rfl | hb
      · exact h.1
      · exact Nat.le_trans h.1 (ih h.2 hb)

/-- The first boundary is the least. -/
theorem Ascends.le_head {x : Boundary} (h : Ascends b.offset bs) (hx : x ∈ b :: bs) :
    b.offset ≤ x.offset := by
  have hall : Ascends b.offset (b :: bs) := ⟨Nat.le_refl _, h⟩
  exact hall.le hx

theorem Ascends.of_append (h : Ascends p (bs ++ bs')) : Ascends p bs' := by
  induction bs generalizing p with
  | nil => exact h
  | cons b rest ih => exact (ih h.2).mono h.1

theorem Ascends.of_append_left (h : Ascends p (bs ++ bs')) : Ascends p bs := by
  induction bs generalizing p with
  | nil => trivial
  | cons b rest ih => exact ⟨h.1, ih h.2⟩

/-- Boundaries that open and close by turns are in order. -/
theorem Ascends.of_regular {state : ScanState} (h : Lexicon.Regular p state bs) :
    Ascends p bs := by
  induction bs generalizing p state with
  | nil => trivial
  | cons b rest ih =>
      obtain ⟨hle, -, hrest⟩ := h
      refine ⟨hle, (ih hrest).mono ?_⟩
      split <;> omega

/-- Moving keeps boundaries in order. -/
theorem Ascends.shifted (h : Ascends p bs) (delta : Int) :
    Ascends (shift p delta) (bs.map (·.shifted delta)) := by
  induction bs generalizing p with
  | nil => trivial
  | cons b rest ih => exact ⟨shift_mono h.1, ih h.2⟩

theorem beyond_cons_of_le (h : b.offset ≤ o) : beyond (b :: bs) o = beyond bs o :=
  List.dropWhile_cons_of_pos (p := fun b : Boundary => decide (b.offset ≤ o)) (decide_eq_true h)

theorem beyond_cons_of_lt (h : o < b.offset) : beyond (b :: bs) o = b :: bs :=
  List.dropWhile_cons_of_neg (p := fun b : Boundary => decide (b.offset ≤ o))
    (by simpa using h)

theorem tagThrough_cons_of_le (h : b.offset ≤ o) :
    tagThrough tag (b :: bs) o = tagThrough b.tag bs o := if_pos h

theorem tagThrough_cons_of_lt (h : o < b.offset) : tagThrough tag (b :: bs) o = tag :=
  if_neg (Nat.not_le.2 h)

/-- The boundaries past an offset begin behind it. -/
theorem Ascends.beyond (h : Ascends p bs) : Ascends (o + 1) (beyond bs o) := by
  induction bs generalizing p with
  | nil => trivial
  | cons b rest ih =>
      by_cases hle : b.offset ≤ o
      · rw [beyond_cons_of_le hle]
        exact ih h.2
      · rw [beyond_cons_of_lt (Nat.lt_of_not_le hle)]
        exact ⟨Nat.lt_of_not_le hle, h.2⟩

/-- Boundaries past an offset are what is left when the ones before it are counted off. -/
theorem drop_countThrough (bs : List Boundary) (o : Nat) :
    bs.drop (countThrough bs o) = Highlighter.beyond bs o := by
  induction bs with
  | nil => rfl
  | cons b rest ih =>
      rw [countThrough, List.takeWhile_cons]
      by_cases hle : b.offset ≤ o
      · simp only [hle, decide_true, if_true, List.length_cons, List.drop_succ_cons]
        rw [beyond_cons_of_le hle]
        exact ih
      · simp only [hle, decide_false]
        exact (beyond_cons_of_lt (Nat.lt_of_not_le hle)).symm

/-- The last boundary up to an offset has the tag that governs it. -/
theorem lastThrough_tag (b : Boundary) (bs : List Boundary) (o : Nat) :
    (lastThrough o b bs).tag = tagThrough b.tag bs o := by
  induction bs generalizing b with
  | nil => rfl
  | cons b' rest ih =>
      rw [lastThrough, tagThrough]
      split
      · exact ih b'
      · rfl

/-- The tag of an offset is the one that governs it, with no tag in force before. -/
theorem tagAt?_eq (bs : List Boundary) (o : Nat) : tagAt? bs o = tagThrough none bs o := by
  cases bs with
  | nil => rfl
  | cons b rest =>
      show (if b.offset ≤ o then some (lastThrough o b rest) else none).bind (·.tag) = _
      rw [tagThrough]
      split
      · exact lastThrough_tag b rest o
      · rfl

/-- What is past the later of two offsets is found from what is past the earlier one. -/
theorem beyond_beyond (h : o ≤ o') : beyond (beyond bs o) o' = beyond bs o' := by
  induction bs with
  | nil => rfl
  | cons b rest ih =>
      by_cases hle : b.offset ≤ o
      · rw [beyond_cons_of_le hle, beyond_cons_of_le (Nat.le_trans hle h), ih]
      · rw [beyond_cons_of_lt (Nat.lt_of_not_le hle)]

/-- The tag of an offset can be found from that of an earlier one and the boundaries past that. -/
theorem tagThrough_beyond (h : o ≤ o') :
    tagThrough (tagThrough tag bs o) (beyond bs o) o' = tagThrough tag bs o' := by
  induction bs generalizing tag with
  | nil => rfl
  | cons b rest ih =>
      by_cases hle : b.offset ≤ o
      · rw [beyond_cons_of_le hle, tagThrough_cons_of_le hle,
          tagThrough_cons_of_le (Nat.le_trans hle h), ih]
      · rw [beyond_cons_of_lt (Nat.lt_of_not_le hle), tagThrough_cons_of_lt (Nat.lt_of_not_le hle)]

/-- Boundaries at or before an offset count for the tag alone. -/
theorem beyond_append (h : ∀ b ∈ bs, b.offset ≤ o) : beyond (bs ++ bs') o = beyond bs' o := by
  induction bs with
  | nil => rfl
  | cons b rest ih =>
      rw [List.cons_append, beyond_cons_of_le (h b List.mem_cons_self),
        ih fun b' hb' => h b' (List.mem_cons_of_mem b hb')]

/-- Boundaries up to an offset can be gone through in two parts. -/
theorem tagThrough_append (h : ∀ b ∈ bs, b.offset ≤ o) :
    tagThrough tag (bs ++ bs') o = tagThrough (tagThrough tag bs o) bs' o := by
  induction bs generalizing tag with
  | nil => rfl
  | cons b rest ih =>
      have hle := h b List.mem_cons_self
      rw [List.cons_append, tagThrough_cons_of_le hle, tagThrough_cons_of_le hle,
        ih fun b' hb' => h b' (List.mem_cons_of_mem b hb')]

/-- No boundary up to an offset changes its tag. -/
theorem tagThrough_of_lt (h : ∀ b ∈ bs, o < b.offset) : tagThrough tag bs o = tag := by
  cases bs with
  | nil => rfl
  | cons b rest => exact tagThrough_cons_of_lt (h b List.mem_cons_self)

/-- Boundaries past an offset do not govern it. -/
theorem tagThrough_append_of_lt (h : ∀ b ∈ bs', o < b.offset) :
    tagThrough tag (bs ++ bs') o = tagThrough tag bs o := by
  induction bs generalizing tag with
  | nil => exact tagThrough_of_lt h
  | cons b rest ih => rw [List.cons_append, tagThrough, tagThrough, ih]

/-- Boundaries behind an offset are all past it. -/
theorem beyond_append_of_lt (h : ∀ b ∈ bs', o < b.offset) :
    beyond (bs ++ bs') o = beyond bs o ++ bs' := by
  induction bs with
  | nil =>
      cases bs' with
      | nil => rfl
      | cons b rest => exact beyond_cons_of_lt (h b List.mem_cons_self)
  | cons b rest ih =>
      rw [List.cons_append]
      by_cases hle : b.offset ≤ o
      · rw [beyond_cons_of_le hle, beyond_cons_of_le hle, ih]
      · rw [beyond_cons_of_lt (Nat.lt_of_not_le hle), beyond_cons_of_lt (Nat.lt_of_not_le hle),
          List.cons_append]

/-- Without a boundary in between two offsets are governed alike. -/
theorem tagThrough_eq (h : ∀ b ∈ bs, b.offset ≤ o ∨ o' < b.offset) (hle : o ≤ o') :
    tagThrough tag bs o' = tagThrough tag bs o := by
  induction bs generalizing tag with
  | nil => rfl
  | cons b rest ih =>
      rcases h b List.mem_cons_self with hin | hout
      · rw [tagThrough_cons_of_le hin, tagThrough_cons_of_le (Nat.le_trans hin hle),
          ih fun b' hb' => h b' (List.mem_cons_of_mem b hb')]
      · rw [tagThrough_cons_of_lt hout, tagThrough_cons_of_lt (by omega)]

end Ahead

namespace Lexicon

variable {lex : Lexicon} {text text' : Array Char}

/-! ## Pieces -/

/-- The spans of a stretch that no boundary divides. -/
def piece (lex : Lexicon) (text : Array Char) (tag : Option Nat) (u v : Nat) : List Span :=
  if u < v then
    match tag.bind lex.region? with
    | some d => [⟨u, v, d.style⟩]
    | none => lex.flat text u v
  else []

/-- A place where a window of a piece can end: at an end of it, at a line start, or in a region. -/
def CleanIn (lex : Lexicon) (text : Array Char) (tag : Option Nat) (u v a : Nat) : Prop :=
  a = u ∨ a = v ∨ IsLineStart text a ∨ (tag.bind lex.region?).isSome = true

section Piece

variable {tag : Option Nat} {u v w a : Nat}

/-- What is clean before both ends is clean for either. -/
theorem CleanIn.of_lt (h : lex.CleanIn text tag u v a) (hlt : a < v) :
    lex.CleanIn text tag u w a := by
  rcases h with h | rfl | h
  · exact .inl h
  · exact absurd hlt (Nat.lt_irrefl a)
  · exact .inr (.inr h)

/-- A piece without chars has no spans. -/
theorem piece_of_le (h : v ≤ u) : lex.piece text tag u v = [] := if_neg (Nat.not_lt.2 h)

theorem laid_piece (lex : Lexicon) (tag : Option Nat) (huv : u ≤ v) (hv : v ≤ text.size) :
    Laid u (lex.piece text tag u v) v := by
  rw [piece]
  by_cases hlt : u < v
  · rw [if_pos hlt]
    cases tag.bind lex.region? with
    | none => exact laid_flat lex huv hv
    | some d => exact ⟨Nat.le_refl u, hlt, Nat.le_refl v⟩
  · rw [if_neg hlt]
    exact huv

/-- Plain text can be cut at a line start. -/
theorem piece_append (hlocal : lex.TokensLocal) (hua : u ≤ a) (hav : a ≤ v) (hv : v ≤ text.size)
    (ha : a = u ∨ a = v ∨ (IsLineStart text a ∧ tag.bind lex.region? = none)) :
    lex.piece text tag u v = lex.piece text tag u a ++ lex.piece text tag a v := by
  rcases ha with rfl | rfl | ⟨hline, hplain⟩
  · rw [piece_of_le (Nat.le_refl a), List.nil_append]
  · rw [piece_of_le (u := a) (v := a) (Nat.le_refl a), List.append_nil]
  · rcases Nat.eq_or_lt_of_le hua with rfl | hua'
    · rw [piece_of_le (Nat.le_refl u), List.nil_append]
    · rcases Nat.eq_or_lt_of_le hav with rfl | hav'
      · rw [piece_of_le (u := a) (v := a) (Nat.le_refl a), List.append_nil]
      · rw [piece, piece, piece, if_pos hua', if_pos hav', if_pos (Nat.lt_trans hua' hav'), hplain]
        exact flat_append hlocal hline hua hav hv

/-- Outside regions a piece can be cut wherever a window of it can end. -/
theorem piece_append_of_plain (hlocal : lex.TokensLocal) (hua : u ≤ a) (hav : a ≤ v)
    (hv : v ≤ text.size) (hplain : ¬(tag.bind lex.region?).isSome = true)
    (ha : lex.CleanIn text tag u v a) :
    lex.piece text tag u v = lex.piece text tag u a ++ lex.piece text tag a v := by
  refine piece_append hlocal hua hav hv ?_
  rcases ha with ha | ha | ha | ha
  · exact .inl ha
  · exact .inr (.inl ha)
  · exact .inr (.inr ⟨ha, Option.not_isSome_iff_eq_none.1 hplain⟩)
  · exact absurd ha hplain

/-- The left part of a piece is a piece. -/
theorem clipped_piece_left (hlocal : lex.TokensLocal) (hua : u ≤ a) (hav : a ≤ v)
    (hv : v ≤ text.size) (ha : lex.CleanIn text tag u v a) {o : Nat} (ho : o ≤ u) :
    clipped (lex.piece text tag u v) o a = lex.piece text tag u a := by
  by_cases hregion : (tag.bind lex.region?).isSome = true
  · obtain ⟨d, hd⟩ := Option.isSome_iff_exists.1 hregion
    have hmax : max u o = u := Nat.max_eq_left ho
    have hmin : min v a = a := Nat.min_eq_right hav
    rw [piece, piece, hd]
    by_cases huv : u < v
    · rw [if_pos huv, clipped_singleton, hmax, hmin]
    · rw [if_neg huv, if_neg (by omega), clipped_nil]
  · rw [piece_append_of_plain hlocal hua hav hv hregion ha, clipped_append,
      (laid_piece lex tag hua (Nat.le_trans hav hv)).clipped_self ho (Nat.le_refl a),
      (laid_piece lex tag hav hv).clipped_apart (.inl (Nat.le_refl a)), List.append_nil]

/-- The right part of a piece is a piece. -/
theorem clipped_piece_right (hlocal : lex.TokensLocal) (hua : u ≤ a) (hav : a ≤ v)
    (hv : v ≤ text.size) (ha : lex.CleanIn text tag u v a) {o : Nat} (ho : v ≤ o) :
    clipped (lex.piece text tag u v) a o = lex.piece text tag a v := by
  by_cases hregion : (tag.bind lex.region?).isSome = true
  · obtain ⟨d, hd⟩ := Option.isSome_iff_exists.1 hregion
    have hmax : max u a = a := Nat.max_eq_right hua
    have hmin : min v o = v := Nat.min_eq_left ho
    rw [piece, piece, hd]
    by_cases huv : u < v
    · rw [if_pos huv, clipped_singleton, hmax, hmin]
    · rw [if_neg huv, if_neg (by omega), clipped_nil]
  · rw [piece_append_of_plain hlocal hua hav hv hregion ha, clipped_append,
      (laid_piece lex tag hua (Nat.le_trans hav hv)).clipped_apart (.inr (Nat.le_refl a)),
      (laid_piece lex tag hav hv).clipped_self (Nat.le_refl a) ho, List.nil_append]

/-- A piece moves along with its chars. -/
theorem piece_shifted (hlocal : lex.TokensLocal) {delta : Int} (huv : u ≤ v) (hv : v ≤ text.size)
    (hdelta : 0 ≤ (u : Int) + delta) (hv' : shift v delta ≤ text'.size)
    (hbefore : charBefore text' (shift u delta) = charBefore text u)
    (hagree : ∀ i, u ≤ i → i < v → text'[shift i delta]? = text[i]?) :
    lex.piece text' tag (shift u delta) (shift v delta) =
      (lex.piece text tag u v).map (·.shifted delta) := by
  rw [piece, piece]
  by_cases hlt : u < v
  · rw [if_pos hlt, if_pos ((shift_lt_shift hdelta).2 hlt)]
    cases tag.bind lex.region? with
    | none => exact flat_shifted hlocal huv hv hdelta hv' hbefore hagree
    | some d => rfl
  · rw [if_neg hlt, if_neg fun h => hlt ((shift_lt_shift hdelta).1 h), List.map_nil]

end Piece

/-! ## Drawings -/

/-- The spans from `pos` up to `stop`, with the boundaries ahead and the tag around `pos`. -/
def drawn (lex : Lexicon) (text : Array Char) (stop : Nat) :
    (ahead : List Boundary) → (tag : Option Nat) → (pos : Nat) → List Span
  | [], tag, pos => lex.piece text tag pos stop
  | b :: ahead, tag, pos =>
    if b.offset < stop then lex.piece text tag pos b.offset ++ drawn lex text stop ahead b.tag b.offset
    else lex.piece text tag pos stop

/-- A place where a drawing can be cut in two: at one of its ends or at a boundary, or at a line
    start outside regions. -/
def Seam (lex : Lexicon) (text : Array Char) (ahead : List Boundary) (tag : Option Nat)
    (pos stop a : Nat) : Prop :=
  a = pos ∨ a = stop ∨ (∃ b ∈ ahead, b.offset = a) ∨
    (IsLineStart text a ∧ (tagThrough tag ahead a).bind lex.region? = none)

/-- A place where a window of a drawing can end: at a seam, at any line start, or in a region. -/
def Clean (lex : Lexicon) (text : Array Char) (ahead : List Boundary) (tag : Option Nat)
    (pos stop a : Nat) : Prop :=
  a = pos ∨ a = stop ∨ (∃ b ∈ ahead, b.offset = a) ∨
    IsLineStart text a ∨ ((tagThrough tag ahead a).bind lex.region?).isSome = true

section Drawn

variable {ahead : List Boundary} {tag : Option Nat} {pos stop a : Nat}

/-- A drawing that comes to a boundary goes on behind it under its tag. -/
theorem drawn_cons_of_lt {b : Boundary} (h : b.offset < stop) :
    lex.drawn text stop (b :: ahead) tag pos =
      lex.piece text tag pos b.offset ++ lex.drawn text stop ahead b.tag b.offset := if_pos h

/-- A drawing that comes to no boundary is one piece. -/
theorem drawn_cons_of_le {b : Boundary} (h : stop ≤ b.offset) :
    lex.drawn text stop (b :: ahead) tag pos = lex.piece text tag pos stop :=
  if_neg (Nat.not_lt.2 h)

/-- With all boundaries at the end or past it, one piece is left. -/
theorem drawn_of_le (h : ∀ b ∈ ahead, stop ≤ b.offset) :
    lex.drawn text stop ahead tag pos = lex.piece text tag pos stop := by
  cases ahead with
  | nil => rfl
  | cons b rest => exact drawn_cons_of_le (h b List.mem_cons_self)

theorem laid_drawn (lex : Lexicon) (hascends : Ascends pos ahead) (hle : pos ≤ stop)
    (hstop : stop ≤ text.size) : Laid pos (lex.drawn text stop ahead tag pos) stop := by
  induction ahead generalizing tag pos with
  | nil => exact laid_piece lex tag hle hstop
  | cons b rest ih =>
      obtain ⟨hb, hrest⟩ := hascends
      by_cases hlt : b.offset < stop
      · rw [drawn_cons_of_lt hlt]
        exact (laid_piece lex tag hb (by omega)).append (ih hrest (Nat.le_of_lt hlt))
      · rw [drawn_cons_of_le (Nat.le_of_not_lt hlt)]
        exact laid_piece lex tag hle hstop

/-- A seam before the first boundary is one of the piece up to there. -/
theorem Seam.piece {b : Boundary} (h : lex.Seam text (b :: ahead) tag pos stop a)
    (hascends : Ascends b.offset ahead) (hlt : a < b.offset) :
    a = pos ∨ a = stop ∨ (IsLineStart text a ∧ tag.bind lex.region? = none) := by
  rcases h with h | h | ⟨b', hb', h⟩ | h
  · exact .inl h
  · exact .inr (.inl h)
  · have := hascends.le_head hb'
    omega
  · rw [tagThrough_cons_of_lt hlt] at h
    exact .inr (.inr h)

/-- A seam past the first boundary is one of the drawing from there on. -/
theorem Seam.tail {b : Boundary} (h : lex.Seam text (b :: ahead) tag pos stop a)
    (hpos : pos ≤ b.offset) (hle : b.offset ≤ a) :
    lex.Seam text ahead b.tag b.offset stop a := by
  rcases h with h | h | ⟨b', hb', h⟩ | h
  · exact .inl (by omega)
  · exact .inr (.inl h)
  · rcases List.mem_cons.1 hb' with rfl | hb'
    · exact .inl h.symm
    · exact .inr (.inr (.inl ⟨b', hb', h⟩))
  · rw [tagThrough_cons_of_le hle] at h
    exact .inr (.inr (.inr h))

/-- **A drawing is put together from its two sides of a seam.** -/
theorem drawn_append (hlocal : lex.TokensLocal) (hascends : Ascends pos ahead) (hpa : pos ≤ a)
    (hle : a ≤ stop) (hstop : stop ≤ text.size) (hseam : lex.Seam text ahead tag pos stop a) :
    lex.drawn text stop ahead tag pos = lex.drawn text a ahead tag pos ++
      lex.drawn text stop (beyond ahead a) (tagThrough tag ahead a) a := by
  induction ahead generalizing tag pos with
  | nil =>
      refine piece_append hlocal hpa hle hstop ?_
      rcases hseam with h | h | ⟨b, hb, -⟩ | h
      · exact .inl h
      · exact .inr (.inl h)
      · exact absurd hb List.not_mem_nil
      · exact .inr (.inr h)
  | cons b rest ih =>
      obtain ⟨hb, hrest⟩ := hascends
      by_cases hba : b.offset ≤ a
      · -- the boundary lies on the left side
        have hrec := ih hrest hba (hseam.tail hb hba)
        rw [beyond_cons_of_le hba, tagThrough_cons_of_le hba]
        by_cases hbstop : b.offset < stop
        · rw [drawn_cons_of_lt hbstop, hrec]
          -- cut at the boundary itself, the left side ends with the piece before it
          rcases Nat.eq_or_lt_of_le hba with heq | hlt
          · rw [drawn_cons_of_le (Nat.le_of_eq heq.symm), heq,
              drawn_of_le fun b' hb' => heq ▸ hrest.le hb', piece_of_le (Nat.le_refl a),
              List.nil_append]
          · rw [drawn_cons_of_lt hlt, List.append_assoc]
        · have heq : a = stop := by omega
          have hlast : lex.drawn text stop (beyond rest a) (tagThrough b.tag rest a) a = [] := by
            rw [heq, drawn_of_le fun b' hb' => ?_, piece_of_le (Nat.le_refl stop)]
            have := (hrest.beyond (o := stop)).le hb'
            omega
          rw [hlast, List.append_nil, heq]
      · -- the boundary lies on the right side
        have hlt := Nat.lt_of_not_le hba
        rw [beyond_cons_of_lt hlt, tagThrough_cons_of_lt hlt, drawn_cons_of_le (Nat.le_of_lt hlt)]
        have hcut : ∀ v, a ≤ v → v ≤ text.size → (a = stop → a = v) → lex.piece text tag pos v =
            lex.piece text tag pos a ++ lex.piece text tag a v := by
          intro v hav hv hend
          exact piece_append hlocal hpa hav hv ((hseam.piece hrest hlt).imp id (.imp hend id))
        by_cases hbstop : b.offset < stop
        · rw [drawn_cons_of_lt hbstop, drawn_cons_of_lt hbstop,
            hcut b.offset (Nat.le_of_lt hlt) (by omega) (by omega), List.append_assoc]
        · rw [drawn_cons_of_le (Nat.le_of_not_lt hbstop), drawn_cons_of_le (Nat.le_of_not_lt hbstop)]
          exact hcut stop hle hstop id

/-- With no boundary ahead a window ends where one of the piece can. -/
theorem Clean.of_nil (h : lex.Clean text [] tag pos stop a) : lex.CleanIn text tag pos stop a := by
  rcases h with h | h | ⟨b, hb, -⟩ | h
  · exact .inl h
  · exact .inr (.inl h)
  · exact absurd hb List.not_mem_nil
  · exact .inr (.inr h)

/-- A window that ends before the first boundary ends where one of the first piece can. -/
theorem Clean.piece {b : Boundary} (h : lex.Clean text (b :: ahead) tag pos stop a)
    (hascends : Ascends b.offset ahead) (hlt : a < b.offset) :
    lex.CleanIn text tag pos stop a := by
  rcases h with h | h | ⟨b', hb', h⟩ | h | h
  · exact .inl h
  · exact .inr (.inl h)
  · have := hascends.le_head hb'
    omega
  · exact .inr (.inr (.inl h))
  · rw [tagThrough_cons_of_lt hlt] at h
    exact .inr (.inr (.inr h))

/-- A window that ends behind the first boundary ends where one of the rest can. -/
theorem Clean.tail {b : Boundary} (h : lex.Clean text (b :: ahead) tag pos stop a)
    (hpos : pos ≤ b.offset) (hle : b.offset ≤ a) :
    lex.Clean text ahead b.tag b.offset stop a := by
  rcases h with h | h | ⟨b', hb', h⟩ | h | h
  · exact .inl (by omega)
  · exact .inr (.inl h)
  · rcases List.mem_cons.1 hb' with rfl | hb'
    · exact .inl h.symm
    · exact .inr (.inr (.inl ⟨b', hb', h⟩))
  · exact .inr (.inr (.inr (.inl h)))
  · rw [tagThrough_cons_of_le hle] at h
    exact .inr (.inr (.inr (.inr h)))

/-- The left part of a drawing is the drawing up to there. -/
theorem clipped_drawn_left (hlocal : lex.TokensLocal) (hascends : Ascends pos ahead)
    (hpa : pos ≤ a) (hle : a ≤ stop) (hstop : stop ≤ text.size)
    (hclean : lex.Clean text ahead tag pos stop a) {o : Nat} (ho : o ≤ pos) :
    clipped (lex.drawn text stop ahead tag pos) o a = lex.drawn text a ahead tag pos := by
  induction ahead generalizing tag pos o with
  | nil =>
      exact clipped_piece_left hlocal hpa hle hstop hclean.of_nil ho
  | cons b rest ih =>
      obtain ⟨hb, hrest⟩ := hascends
      rcases Nat.lt_trichotomy b.offset a with hba | hba | hba
      · have hlaid := laid_piece lex tag hb (Nat.le_trans (Nat.le_of_lt hba) (Nat.le_trans hle hstop))
        rw [drawn_cons_of_lt (by omega), drawn_cons_of_lt hba, clipped_append,
          hlaid.clipped_self ho (Nat.le_of_lt hba),
          ih hrest (Nat.le_of_lt hba) (hclean.tail hb (Nat.le_of_lt hba)) (Nat.le_trans ho hb)]
      · -- the window ends at the boundary
        subst hba
        have hsize := Nat.le_trans hle hstop
        rw [drawn_cons_of_le (Nat.le_refl _)]
        by_cases hlt : b.offset < stop
        · rw [drawn_cons_of_lt hlt, clipped_append,
            (laid_piece lex tag hb hsize).clipped_self ho (Nat.le_refl _),
            (laid_drawn lex hrest (Nat.le_of_lt hlt) hstop).clipped_apart (.inl (Nat.le_refl _)),
            List.append_nil]
        · obtain rfl : stop = b.offset := by omega
          rw [drawn_cons_of_le (Nat.le_refl _),
            (laid_piece lex tag hb hsize).clipped_self ho (Nat.le_refl _)]
      -- the window ends in the piece before the boundary
      · have hcut := hclean.piece hrest hba
        rw [drawn_cons_of_le (Nat.le_of_lt hba)]
        by_cases hlt : b.offset < stop
        · have hsize : b.offset ≤ text.size := by omega
          rw [drawn_cons_of_lt hlt, clipped_append,
            (laid_drawn lex hrest (Nat.le_of_lt hlt) hstop).clipped_apart (.inl (Nat.le_of_lt hba)),
            List.append_nil]
          exact clipped_piece_left hlocal hpa (Nat.le_of_lt hba) hsize
            (hcut.of_lt (Nat.lt_trans hba hlt)) ho
        · rw [drawn_cons_of_le (Nat.le_of_not_lt hlt)]
          exact clipped_piece_left hlocal hpa hle hstop hcut ho

/-- The right part of a drawing is the drawing from there on. -/
theorem clipped_drawn_right (hlocal : lex.TokensLocal) (hascends : Ascends pos ahead)
    (hpa : pos ≤ a) (hle : a ≤ stop) (hstop : stop ≤ text.size)
    (hclean : lex.Clean text ahead tag pos stop a) :
    clipped (lex.drawn text stop ahead tag pos) a stop =
      lex.drawn text stop (beyond ahead a) (tagThrough tag ahead a) a := by
  induction ahead generalizing tag pos with
  | nil =>
      exact clipped_piece_right hlocal hpa hle hstop hclean.of_nil (Nat.le_refl stop)
  | cons b rest ih =>
      obtain ⟨hb, hrest⟩ := hascends
      by_cases hba : b.offset ≤ a
      · rw [beyond_cons_of_le hba, tagThrough_cons_of_le hba,
          ← ih hrest hba (hclean.tail hb hba)]
        by_cases hlt : b.offset < stop
        · rw [drawn_cons_of_lt hlt, clipped_append,
            (laid_piece lex tag hb (by omega)).clipped_apart (.inr hba), List.nil_append]
        · rw [clipped_of_le (by omega), clipped_of_le (by omega)]
      -- the window begins in the piece before the boundary
      · have hlt := Nat.lt_of_not_le hba
        have hcut := hclean.piece hrest hlt
        rw [beyond_cons_of_lt hlt, tagThrough_cons_of_lt hlt]
        by_cases hbstop : b.offset < stop
        · have hsize : b.offset ≤ text.size := by omega
          rw [drawn_cons_of_lt hbstop, drawn_cons_of_lt hbstop, clipped_append,
            (laid_drawn lex hrest (Nat.le_of_lt hbstop) hstop).clipped_self (Nat.le_of_lt hlt)
              (Nat.le_refl stop)]
          congr 1
          exact clipped_piece_right hlocal hpa (Nat.le_of_lt hlt) hsize
            (hcut.of_lt (Nat.lt_trans hlt hbstop)) (Nat.le_of_lt hbstop)
        · rw [drawn_cons_of_le (Nat.le_of_not_lt hbstop), drawn_cons_of_le (Nat.le_of_not_lt hbstop)]
          exact clipped_piece_right hlocal hpa hle hstop hcut (Nat.le_refl stop)

/-- Boundaries at the end or past it do not matter. -/
theorem drawn_append_ahead {more : List Boundary} (h : ∀ b ∈ more, stop ≤ b.offset) :
    lex.drawn text stop (ahead ++ more) tag pos = lex.drawn text stop ahead tag pos := by
  induction ahead generalizing tag pos with
  | nil => exact drawn_of_le h
  | cons b rest ih =>
      rw [List.cons_append]
      by_cases hlt : b.offset < stop
      · rw [drawn_cons_of_lt hlt, drawn_cons_of_lt hlt, ih]
      · rw [drawn_cons_of_le (Nat.le_of_not_lt hlt), drawn_cons_of_le (Nat.le_of_not_lt hlt)]

/-- **A drawing moves along with its text and its boundaries.** -/
theorem drawn_shifted (hlocal : lex.TokensLocal) {delta : Int} (hascends : Ascends pos ahead)
    (hle : pos ≤ stop) (hstop : stop ≤ text.size) (hdelta : 0 ≤ (pos : Int) + delta)
    (hstop' : shift stop delta ≤ text'.size)
    (hbefore : charBefore text' (shift pos delta) = charBefore text pos)
    (hagree : ∀ i, pos ≤ i → i < stop → text'[shift i delta]? = text[i]?) :
    lex.drawn text' (shift stop delta) (ahead.map (·.shifted delta)) tag (shift pos delta) =
      (lex.drawn text stop ahead tag pos).map (·.shifted delta) := by
  induction ahead generalizing tag pos with
  | nil => exact piece_shifted hlocal hle hstop hdelta hstop' hbefore hagree
  | cons b rest ih =>
      obtain ⟨hb, hrest⟩ := hascends
      rw [List.map_cons]
      have hoffset : (b.shifted delta).offset = shift b.offset delta := rfl
      by_cases hlt : b.offset < stop
      · have hlt' : (b.shifted delta).offset < shift stop delta :=
          (shift_lt_shift (by omega)).2 hlt
        -- the char before the boundary is one that has moved along
        have hbefore' : charBefore text' (shift b.offset delta) = charBefore text b.offset :=
          charBefore_shift hdelta hbefore hb fun j hj hjb => hagree j hj (by omega)
        rw [drawn_cons_of_lt hlt, drawn_cons_of_lt hlt', hoffset, List.map_append,
          piece_shifted hlocal hb (by omega) hdelta (by omega) hbefore
            fun i hi hib => hagree i hi (by omega)]
        congr 1
        exact ih hrest (Nat.le_of_lt hlt) (by omega) hbefore' fun i hi hib => hagree i (by omega) hib
      · have hle' : shift stop delta ≤ (b.shifted delta).offset :=
          shift_mono (Nat.le_of_not_lt hlt)
        rw [drawn_cons_of_le (Nat.le_of_not_lt hlt), drawn_cons_of_le hle']
        exact piece_shifted hlocal hle hstop hdelta hstop' hbefore hagree

end Drawn

/-! ## Drawings from all boundaries -/

/-- The spans of a stretch, from the boundaries of the text. -/
def drawing (lex : Lexicon) (text : Array Char) (entries : List Boundary) (p q : Nat) : List Span :=
  lex.drawn text q (beyond entries p) (tagThrough none entries p) p

/-- A boundary, or a line start outside regions. -/
def SeamAt (lex : Lexicon) (text : Array Char) (entries : List Boundary) (a : Nat) : Prop :=
  (∃ b ∈ entries, b.offset = a) ∨
    (IsLineStart text a ∧ (tagThrough none entries a).bind lex.region? = none)

/-- A boundary, any line start, or a place in a region. -/
def CleanAt (lex : Lexicon) (text : Array Char) (entries : List Boundary) (a : Nat) : Prop :=
  (∃ b ∈ entries, b.offset = a) ∨ IsLineStart text a ∨
    ((tagThrough none entries a).bind lex.region?).isSome = true

section Drawing

variable {entries front ahead more : List Boundary} {p q a b : Nat}

/-- A window can end at a seam. -/
theorem SeamAt.cleanAt (h : lex.SeamAt text entries a) : lex.CleanAt text entries a := by
  rcases h with h | h
  · exact .inl h
  · exact .inr (.inl h.1)

theorem mem_beyond {x : Boundary} (hx : x ∈ entries) (hlt : p < x.offset) :
    x ∈ beyond entries p := by
  have hsplit : entries.takeWhile (fun b => b.offset ≤ p) ++ beyond entries p = entries :=
    List.takeWhile_append_dropWhile
  rw [← hsplit] at hx
  refine (List.mem_append.1 hx).resolve_left ?_
  intro hfront
  have hle := of_decide_eq_true (List.all_eq_true.1 List.all_takeWhile x hfront)
  omega

theorem ascends_beyond (h : Ascends 0 entries) (p : Nat) : Ascends p (beyond entries p) :=
  (h.beyond (o := p)).mono (Nat.le_succ p)

/-- The spans of a stretch lie inside it, in order. -/
theorem laid_drawing (lex : Lexicon) (h : Ascends 0 entries) (hpq : p ≤ q) (hq : q ≤ text.size) :
    Laid p (lex.drawing text entries p q) q := laid_drawn lex (ascends_beyond h p) hpq hq

/-- A stretch without chars has no spans. -/
theorem drawing_self (lex : Lexicon) (h : Ascends 0 entries) (hp : p ≤ text.size) :
    lex.drawing text entries p p = [] := by
  have hlaid := laid_drawing lex h (Nat.le_refl p) hp
  have hself := hlaid.clipped_self (Nat.le_refl p) (Nat.le_refl p)
  rwa [clipped_of_le (Nat.le_refl p), eq_comm] at hself

/-- A seam of a drawing is one of what is ahead of its start. -/
theorem SeamAt.beyond (h : a = q ∨ lex.SeamAt text entries a) (hpa : p ≤ a) :
    lex.Seam text (beyond entries p) (tagThrough none entries p) p q a := by
  rcases Nat.eq_or_lt_of_le hpa with rfl | hlt
  · exact .inl rfl
  · rcases h with h | ⟨x, hx, rfl⟩ | ⟨hline, hplain⟩
    · exact .inr (.inl h)
    · exact .inr (.inr (.inl ⟨x, mem_beyond hx hlt, rfl⟩))
    · refine .inr (.inr (.inr ⟨hline, ?_⟩))
      rwa [tagThrough_beyond hpa]

/-- The same of a place where a window of a drawing can end. -/
theorem CleanAt.beyond (h : a = q ∨ lex.CleanAt text entries a) (hpa : p ≤ a) :
    lex.Clean text (beyond entries p) (tagThrough none entries p) p q a := by
  rcases Nat.eq_or_lt_of_le hpa with rfl | hlt
  · exact .inl rfl
  · rcases h with h | ⟨y, hy, rfl⟩ | h | h
    · exact .inr (.inl h)
    · exact .inr (.inr (.inl ⟨y, mem_beyond hy hlt, rfl⟩))
    · exact .inr (.inr (.inr (.inl h)))
    · rw [← tagThrough_beyond hpa] at h
      exact .inr (.inr (.inr (.inr h)))

/-- A drawing falls into two at a seam. -/
theorem drawing_split (hlocal : lex.TokensLocal) (h : Ascends 0 entries) (hpa : p ≤ a)
    (haq : a ≤ q) (hq : q ≤ text.size) (hseam : a = q ∨ lex.SeamAt text entries a) :
    lex.drawing text entries p q =
      lex.drawing text entries p a ++ lex.drawing text entries a q := by
  have hsplit := drawn_append hlocal (ascends_beyond h p) hpa haq hq (SeamAt.beyond hseam hpa)
  rwa [beyond_beyond hpa, tagThrough_beyond hpa] at hsplit

/-- **A window of a drawing is a drawing.** -/
theorem clipped_drawing (hlocal : lex.TokensLocal) (h : Ascends 0 entries) (hpa : p ≤ a)
    (hab : a ≤ b) (hbq : b ≤ q) (hq : q ≤ text.size) (ha : lex.CleanAt text entries a)
    (hb : b = q ∨ lex.CleanAt text entries b) :
    clipped (lex.drawing text entries p q) a b = lex.drawing text entries a b := by
  have hascends := ascends_beyond h p
  have hpb := Nat.le_trans hpa hab
  have hleft := clipped_drawn_left hlocal hascends hpb hbq hq (CleanAt.beyond hb hpb)
    (Nat.le_refl p)
  have hright := clipped_drawn_right hlocal hascends hpa hab (Nat.le_trans hbq hq)
    (CleanAt.beyond (.inr ha) hpa)
  rw [beyond_beyond hpa, tagThrough_beyond hpa, ← hleft, clipped_clipped, Nat.max_eq_right hpa,
    Nat.min_self] at hright
  exact hright

/-- The boundaries at or before the start matter by their tag alone. -/
theorem drawing_of_append (hlocal : lex.TokensLocal) (hfront : ∀ x ∈ front, x.offset ≤ p)
    (hahead : Ascends p ahead) (hpq : p ≤ q) (hq : q ≤ text.size) :
    lex.drawing text (front ++ ahead) p q =
      lex.drawn text q ahead (tagThrough none front p) p := by
  have hsplit : lex.drawn text q ahead (tagThrough none front p) p = _ :=
    drawn_append hlocal hahead (Nat.le_refl p) hpq hq (.inl rfl)
  rw [drawn_of_le fun b hb => hahead.le hb, piece_of_le (Nat.le_refl p), List.nil_append] at hsplit
  rw [drawing, beyond_append hfront, tagThrough_append hfront, hsplit]

/-- The boundaries at or past the end do not matter. -/
theorem drawing_append (h : Ascends 0 (entries ++ more)) (hpq : p ≤ q) (hq : q ≤ text.size)
    (hmore : ∀ x ∈ more, q ≤ x.offset) :
    lex.drawing text (entries ++ more) p q = lex.drawing text entries p q := by
  rcases Nat.eq_or_lt_of_le hpq with rfl | hlt
  · rw [drawing_self lex h hq, drawing_self lex h.of_append_left hq]
  · have hbeyond : beyond (entries ++ more) p = beyond entries p ++ more :=
      beyond_append_of_lt fun x hx => Nat.lt_of_lt_of_le hlt (hmore x hx)
    have htag : tagThrough none (entries ++ more) p = tagThrough none entries p :=
      tagThrough_append_of_lt fun x hx => Nat.lt_of_lt_of_le hlt (hmore x hx)
    rw [drawing, drawing, hbeyond, htag, drawn_append_ahead hmore]

end Drawing

end Lexicon

/-! ## Rendering -/

/-- What is rendered of a piece are its spans. -/
theorem renderPiece_eq {lex : Lexicon} (hlocal : lex.TokensLocal) (doc : Document)
    {tag : Option Nat} {u v : Nat} (huv : u < v) (hv : v ≤ doc.length) :
    renderPiece lex doc tag ⟨u, v⟩ = lex.piece doc.chars tag u v := by
  rw [renderPiece, Lexicon.piece, if_pos huv]
  cases tag.bind lex.region? with
  | none => exact renderTokens_eq hlocal doc (Nat.le_of_lt huv) hv
  | some d => rfl

/-- What is rendered of a range are the spans of its drawing. -/
theorem renderFrom_eq {lex : Lexicon} (hlocal : lex.TokensLocal) (doc : Document) {stop : Nat}
    {ahead : List Boundary} {tag : Option Nat} {pos : Nat} (hascends : Ascends pos ahead)
    (hle : pos ≤ stop) (hstop : stop ≤ doc.length) :
    renderFrom lex doc stop ahead tag pos = lex.drawn doc.chars stop ahead tag pos := by
  induction ahead generalizing tag pos with
  | nil =>
      rw [renderFrom, Lexicon.drawn]
      by_cases hlt : pos < stop
      · rw [if_pos hlt, renderPiece_eq hlocal doc hlt hstop]
      · rw [if_neg hlt, Lexicon.piece_of_le (Nat.le_of_not_lt hlt)]
  | cons b rest ih =>
      obtain ⟨hb, hrest⟩ := hascends
      rw [renderFrom]
      by_cases hlt : pos < stop
      · rw [if_pos hlt]
        by_cases hbstop : b.offset < stop
        · have hnext : min b.offset stop = b.offset := Nat.min_eq_left (Nat.le_of_lt hbstop)
          have hmax : max pos b.offset = b.offset := Nat.max_eq_right hb
          rw [Lexicon.drawn_cons_of_lt hbstop]
          simp only [hnext, hmax, Nat.le_refl, if_true]
          rw [ih hrest (Nat.le_of_lt hbstop)]
          congr 1
          by_cases hpos : pos < b.offset
          · rw [if_pos hpos, renderPiece_eq hlocal doc hpos (by omega)]
          · rw [if_neg hpos, Lexicon.piece_of_le (Nat.le_of_not_lt hpos)]
        · have hge := Nat.le_of_not_lt hbstop
          have hnext : min b.offset stop = stop := Nat.min_eq_right hge
          have hmax : max pos stop = stop := Nat.max_eq_right hle
          have hlast : (if b.offset ≤ stop then renderFrom lex doc stop rest b.tag stop else []) =
              [] := by
            split
            · cases rest <;> rw [renderFrom, if_neg (Nat.lt_irrefl stop)]
            · rfl
          rw [Lexicon.drawn_cons_of_le hge]
          simp only [hnext, hmax]
          rw [hlast, List.append_nil, if_pos hlt, renderPiece_eq hlocal doc hlt hstop]
      · have heq : stop ≤ pos := Nat.le_of_not_lt hlt
        rw [if_neg hlt, Lexicon.drawn_cons_of_le (Nat.le_trans heq hb), Lexicon.piece_of_le heq]

/-- **Rendering** draws the range. -/
theorem render_eq {lex : Lexicon} (hlocal : lex.TokensLocal) (doc : Document)
    {entries : List Boundary} (h : Ascends 0 entries) {p q : Nat} (hpq : p ≤ q)
    (hq : q ≤ doc.length) :
    render lex doc entries ⟨p, q⟩ = lex.drawing doc.chars entries p q := by
  show renderFrom lex doc q (entries.drop (countThrough entries p)) (tagAt? entries p) p = _
  rw [drop_countThrough, tagAt?_eq]
  exact renderFrom_eq hlocal doc (Lexicon.ascends_beyond h p) hpq hq

end Highlighter
