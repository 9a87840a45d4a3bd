import Mathlib.Data.List.TakeWhile
import Highlighter.Escape.Encoded
import Highlighter.Proofs.CharList
import Highlighter.Proofs.Delimiters

/-! # Escaped search — the least match that is not escaped, found byte by byte

    A search over encoded text begins at a byte offset between two chars, and each round
    goes on behind the char where an escaped match starts.  So it stays between chars
    (`next?_offset`), what a round passes over is escaped (`Matcher.round_cases`), and the
    search comes to an end (`Matcher.exists_searches`).  Of the matcher this needs only that
    it answers the match with the least start, and that a match at a start does not depend
    on where the search began (`Matcher`); the matcher of a regular expression is one
    (`matcher_regex`), and the search by char positions that the rest of the library works
    with is this search, offset by offset (`searches_nextUnescaped`). -/

namespace Highlighter

/-! ## Runs of a char -/

/-- A list ends in so many copies of a char, and no more. -/
def EndsInRun (cs : List Char) (c : Char) (n : Nat) : Prop :=
  ∃ rest, cs = rest ++ List.replicate n c ∧ rest.getLast? ≠ some c

/-- A text ends in as many of a char as stand at the front of its reverse. -/
theorem endsInRun_iff {cs : List Char} {c : Char} {n : Nat} :
    EndsInRun cs c n ↔ (cs.reverse.takeWhile (· == c)).length = n := by
  constructor
  · rintro ⟨rest, rfl, hrest⟩
    have hstop : rest.reverse.takeWhile (· == c) = [] := by
      rw [← List.head?_reverse] at hrest
      cases h : rest.reverse with
      | nil => rfl
      | cons d ds =>
          rw [h, List.head?_cons, ne_eq, Option.some.injEq] at hrest
          exact List.takeWhile_cons_of_neg (by simpa using hrest)
    rw [List.reverse_append, List.reverse_replicate, List.takeWhile_append_of_pos, hstop,
      List.append_nil, List.length_replicate]
    intro d hd
    exact beq_iff_eq.2 (List.eq_of_mem_replicate hd)
  · rintro rfl
    -- the run is what is taken off the reversed list, and what is left does not begin with the char
    have hsplit := List.takeWhile_append_dropWhile (p := (· == c)) (l := cs.reverse)
    have hall : ∀ d ∈ cs.reverse.takeWhile (· == c), d = c := fun d hd => by
      have hd := List.mem_takeWhile_imp hd
      exact beq_iff_eq.1 hd
    have hrun : cs.reverse.takeWhile (· == c) =
        List.replicate (cs.reverse.takeWhile (· == c)).length c := List.eq_replicate_of_mem hall
    refine ⟨(cs.reverse.dropWhile (· == c)).reverse, ?_, ?_⟩
    · rw [← List.reverse_replicate, ← List.reverse_append, ← hrun, hsplit, List.reverse_reverse]
    · rw [List.getLast?_reverse]
      intro hhead
      have hnot := List.head?_dropWhile_not (· == c) cs.reverse
      rw [hhead] at hnot
      simp at hnot

/-- The run of escapes before a position is that at the end of the text before it. -/
theorem escapeRun_eq {text : Array Char} {e : Char} {p : Nat} (hp : p ≤ text.size) :
    escapeRun text e p = ((text.toList.take p).reverse.takeWhile (· == e)).length := by
  induction p with
  | zero => rfl
  | succ p ih =>
      have hlt : p < text.toList.length := hp
      have hchar : text[p]? = some text.toList[p] := by
        rw [← Array.getElem?_toList, List.getElem?_eq_getElem hlt]
      rw [escapeRun, ih (Nat.le_of_succ_le hp), List.take_succ_eq_append_getElem hlt,
        List.reverse_append, List.reverse_singleton, List.singleton_append, List.takeWhile_cons,
        hchar]
      by_cases heq : text.toList[p] = e
      · rw [if_pos (congrArg some heq), if_pos (beq_iff_eq.2 heq), List.length_cons]
      · rw [if_neg fun h => heq (Option.some.inj h), if_neg fun h => heq (beq_iff_eq.1 h),
          List.length_nil]

namespace Encoded

variable {text : Array Char} {escape : Option Char} {byte p q : Nat}

/-! ## Byte offsets of chars -/

/-- The byte offset of a char position; positions past the end go on one by one. -/
def offset (text : Array Char) (p : Nat) : Nat := byteLength (text.extract 0 p) + (p - text.size)

/-- A stretch of char positions, by byte offsets. -/
def inBytes (text : Array Char) (m : Extent) : Extent := ⟨offset text m.start, offset text m.stop⟩

/-- The byte offset of a position is the length of the code of what is before it. -/
theorem offset_eq (hp : p ≤ text.size) : offset text p = (utf8 (text.toList.take p)).length := by
  rw [offset, byteLength_eq, Array.toList_extract, List.extract_eq_take_drop, Nat.sub_zero,
    List.drop_zero, Nat.sub_eq_zero_of_le hp, Nat.add_zero]

theorem offset_size : offset text text.size = byteLength text := by
  rw [offset_eq (Nat.le_refl _), byteLength_eq, ← Array.length_toList, List.take_length]

/-- Past the end byte offsets go on one by one. -/
theorem offset_past (h : text.size ≤ p) : offset text p = byteLength text + (p - text.size) := by
  rw [offset, Array.extract_eq_self_of_le h]

theorem offset_lt_offset (h : p < q) : offset text p < offset text q := by
  by_cases hq : q ≤ text.size
  · rw [offset_eq hq, offset_eq (by omega)]
    exact length_utf8_take_lt h (by rwa [Array.length_toList])
  · by_cases hp : p ≤ text.size
    · have hle : offset text p ≤ byteLength text := by
        rw [← offset_size]
        rcases Nat.eq_or_lt_of_le hp with rfl | hlt
        · exact Nat.le_refl _
        · rw [offset_eq hp, offset_eq (Nat.le_refl _)]
          exact Nat.le_of_lt (length_utf8_take_lt hlt (Nat.le_of_eq Array.length_toList.symm))
      rw [offset_past (by omega) (p := q)]
      omega
    · rw [offset_past (by omega), offset_past (by omega)]
      omega

/-- Byte offsets are in the order of the positions that they belong to. -/
theorem offset_lt_iff : offset text p < offset text q ↔ p < q := by
  constructor
  · intro h
    rcases Nat.lt_trichotomy p q with hlt | rfl | hgt
    · exact hlt
    · exact absurd h (Nat.lt_irrefl _)
    · exact absurd h (Nat.lt_asymm (offset_lt_offset hgt))
  · exact offset_lt_offset

theorem offset_le_iff : offset text p ≤ offset text q ↔ p ≤ q := by
  rw [← Nat.not_lt, offset_lt_iff, Nat.not_lt]

/-- A byte offset belongs to one position. -/
theorem offset_inj : offset text p = offset text q ↔ p = q := by
  constructor
  · intro h
    exact Nat.le_antisymm (offset_le_iff.1 (Nat.le_of_eq h)) (offset_le_iff.1 (Nat.le_of_eq h.symm))
  · rintro rfl
    rfl

/-- A match has a char when it has a byte. -/
theorem isEmpty_inBytes (m : Extent) : (inBytes text m).isEmpty = m.isEmpty := by
  simp only [Extent.isEmpty, inBytes, offset_le_iff]

theorem byteLength_lt_iff : byteLength text < offset text p ↔ text.size < p := by
  rw [← offset_size, offset_lt_iff]

theorem offset_le_byteLength (hp : p ≤ text.size) : offset text p ≤ byteLength text := by
  rw [← offset_size]
  exact offset_le_iff.2 hp

/-- The boundaries between chars are the byte offsets of positions. -/
theorem isBoundary_iff : IsBoundary text.toList byte ↔ ∃ p ≤ text.size, byte = offset text p := by
  constructor
  · rintro ⟨front, back, hsplit, rfl⟩
    have hlength : front.length ≤ text.size := by
      rw [← Array.length_toList, hsplit, List.length_append]
      exact Nat.le_add_right _ _
    exact ⟨front.length, hlength, by rw [offset_eq hlength, hsplit, List.take_left]⟩
  · rintro ⟨p, hp, rfl⟩
    exact ⟨_, _, (List.take_append_drop p text.toList).symm, offset_eq hp⟩

/-! ## Taking a text apart -/

/-- A text can be split where a front of it ends. -/
theorem splitAt?_append (front back : List Char) :
    splitAt? (front ++ back) (utf8 front).length = some (front, back) := by
  induction front with
  | nil => cases back <;> rfl
  | cons c front ih =>
      have hpos := c.utf8Size_pos
      rw [List.cons_append, splitAt?, length_utf8_cons, if_neg (by omega),
        if_pos (Nat.le_add_right _ _), Nat.add_sub_cancel_left, ih]
      rfl

/-- At the byte offset of a position a text is split into what is before it and what is behind it.
    -/
theorem splitAt?_offset (hp : p ≤ text.size) :
    splitAt? text.toList (offset text p) = some (text.toList.take p, text.toList.drop p) := by
  rw [offset_eq hp]
  have hsplit := splitAt?_append (text.toList.take p) (text.toList.drop p)
  rwa [List.take_append_drop] at hsplit

/-- Behind the char at a position is the next position. -/
theorem next?_offset (hp : p ≤ text.size) :
    next? text (offset text p) = some (offset text (p + 1)) := by
  rw [next?, splitAt?_offset hp, Option.map_some, Option.some.injEq]
  rcases Nat.eq_or_lt_of_le hp with rfl | hlt
  · have hend : text.toList.drop text.size = [] := by rw [← Array.length_toList, List.drop_length]
    rw [hend, offset_past (Nat.le_succ _), Nat.succ_sub (Nat.le_refl _), Nat.sub_self]
  · have hlt' : p < text.toList.length := hlt
    rw [List.drop_eq_getElem_cons hlt', offset_eq hp, offset_eq hlt,
      List.take_succ_eq_append_getElem hlt', utf8_append, List.length_append, length_utf8_singleton]

/-- A match is escaped by byte offsets when it is by char positions. -/
theorem isEscaped?_offset (e : Char) (hp : p ≤ text.size) :
    isEscaped? text e (offset text p) = some (isEscaped text e p) := by
  rw [isEscaped?, splitAt?_offset hp, Option.map_some, isEscaped, escapeRun_eq hp]

/-! ## What hides a match -/

/-- The longest run of escape chars that ends just before a byte offset is an odd one. -/
def Hidden (text : Array Char) (escape : Option Char) (byte : Nat) : Prop :=
  ∃ e front back n, escape = some e ∧ text.toList = front ++ back ∧ byte = (utf8 front).length ∧
    EndsInRun front e n ∧ n % 2 = 1

/-- A match is hidden when its position is escaped. -/
theorem hidden_offset_iff {e : Char} (hp : p ≤ text.size) :
    Hidden text (some e) (offset text p) ↔ isEscaped text e p = true := by
  have hrun : EndsInRun (text.toList.take p) e (escapeRun text e p) :=
    endsInRun_iff.2 (escapeRun_eq hp).symm
  rw [isEscaped, beq_iff_eq]
  constructor
  · rintro ⟨e', front, back, n, heq, hsplit, hbyte, hends, hodd⟩
    obtain rfl := Option.some.inj heq
    -- a text is taken apart at a byte offset in one way only
    have hfront : front = text.toList.take p := by
      have hparts := splitAt?_append front back
      rw [← hsplit, ← hbyte, splitAt?_offset hp, Option.some.injEq, Prod.mk.injEq] at hparts
      exact hparts.1.symm
    rw [hfront, endsInRun_iff] at hends
    have hlength : escapeRun text e p = n := (endsInRun_iff.1 hrun).symm.trans hends
    rw [hlength]
    exact hodd
  · intro hodd
    exact ⟨e, _, _, _, rfl, (List.take_append_drop p text.toList).symm, offset_eq hp, hrun, hodd⟩

/-! ## Searches -/

/-- What is known of a matcher: it answers the match with the least start, and which match that is
    is a matter of the start. -/
structure Matcher (text : Array Char) (find : Nat → Option Extent) (matchAt : Nat → Option Nat) :
    Prop where
  found  : ∀ {byte m}, IsBoundary text.toList byte → find byte = some m →
    byte ≤ m.start ∧ IsBoundary text.toList m.start ∧ matchAt m.start = some m.stop ∧
      ∀ q, byte ≤ q → q < m.start → IsBoundary text.toList q → matchAt q = none
  missed : ∀ {byte}, IsBoundary text.toList byte → find byte = none →
    ∀ q, byte ≤ q → IsBoundary text.toList q → matchAt q = none

/-- The match at the least start that is not hidden. -/
structure LeastPlain (text : Array Char) (matchAt : Nat → Option Nat) (escape : Option Char)
    (byte : Nat) (m : Extent) : Prop where
  behind   : byte ≤ m.start
  boundary : IsBoundary text.toList m.start
  here     : matchAt m.start = some m.stop
  plain    : ¬Hidden text escape m.start
  least    : ∀ q, byte ≤ q → q < m.start → IsBoundary text.toList q → (matchAt q).isSome = true →
    Hidden text escape q

/-- Every match from a byte offset on is hidden. -/
def AllHidden (text : Array Char) (matchAt : Nat → Option Nat) (escape : Option Char)
    (byte : Nat) : Prop :=
  ∀ q, byte ≤ q → IsBoundary text.toList q → (matchAt q).isSome = true → Hidden text escape q

/-- The answer that a search is to give. -/
def Answers (text : Array Char) (matchAt : Nat → Option Nat) (escape : Option Char) (byte : Nat) :
    Option Extent → Prop
  | some m => LeastPlain text matchAt escape byte m
  | none => AllHidden text matchAt escape byte

variable {find : Nat → Option Extent} {matchAt : Nat → Option Nat} {m m' : Extent}
  {answer : Option Extent}

/-- There is one least match that is not hidden. -/
theorem LeastPlain.unique (h : LeastPlain text matchAt escape byte m)
    (h' : LeastPlain text matchAt escape byte m') : m = m' := by
  have hstart : m.start = m'.start := by
    rcases Nat.lt_trichotomy m.start m'.start with hlt | heq | hgt
    · exact absurd (h'.least m.start h.behind hlt h.boundary (Option.isSome_of_mem h.here)) h.plain
    · exact heq
    · exact absurd (h.least m'.start h'.behind hgt h'.boundary (Option.isSome_of_mem h'.here)) h'.plain
  have hstop : some m.stop = some m'.stop := by rw [← h.here, ← h'.here, hstart]
  obtain ⟨start, stop⟩ := m
  obtain ⟨start', stop'⟩ := m'
  exact congr (congrArg Extent.mk hstart) (Option.some.inj hstop)

/-- The search answers a match when it is the least that is not hidden. -/
theorem Answers.eq_some_iff (h : Answers text matchAt escape byte answer) :
    answer = some m ↔ LeastPlain text matchAt escape byte m := by
  cases answer with
  | none =>
      refine iff_of_false (Option.some_ne_none m).symm fun hm => ?_
      exact hm.plain (h m.start hm.behind hm.boundary (Option.isSome_of_mem hm.here))
  | some m' =>
      rw [Option.some.injEq]
      exact ⟨fun heq => heq ▸ h, fun hm => h.unique hm⟩

/-- The search answers nothing when all matches are hidden. -/
theorem Answers.eq_none_iff (h : Answers text matchAt escape byte answer) :
    answer = none ↔ AllHidden text matchAt escape byte := by
  cases answer with
  | none => exact iff_of_true rfl h
  | some m =>
      refine iff_of_false nofun fun hall => ?_
      exact h.plain (hall m.start h.behind h.boundary (Option.isSome_of_mem h.here))

/-- Where only hidden matches are passed over, the answer from behind them is the answer. -/
theorem Answers.of_passed {byte' : Nat} (hle : byte ≤ byte')
    (hpassed : ∀ q, byte ≤ q → q < byte' → IsBoundary text.toList q → (matchAt q).isSome = true →
      Hidden text escape q)
    (h : Answers text matchAt escape byte' answer) : Answers text matchAt escape byte answer := by
  cases answer with
  | none =>
      intro q hbyte hq hsome
      rcases Nat.lt_or_ge q byte' with hlt | hge
      · exact hpassed q hbyte hlt hq hsome
      · exact h q hge hq hsome
  | some m =>
      refine ⟨Nat.le_trans hle h.behind, h.boundary, h.here, h.plain, fun q hbyte hlt hq hsome => ?_⟩
      rcases Nat.lt_or_ge q byte' with hlt' | hge
      · exact hpassed q hbyte hlt' hq hsome
      · exact h.least q hge hlt hq hsome

/-- A search goes one way only. -/
theorem Searches.unique {asked asked' : List Nat} {answer' : Option Extent}
    (h : Searches find text escape byte asked answer)
    (h' : Searches find text escape byte asked' answer') : asked = asked' ∧ answer = answer' := by
  induction h generalizing asked' answer' with
  | past hpast =>
      cases h' with
      | past => exact ⟨rfl, rfl⟩
      | done hin => exact absurd hin (Nat.not_le.2 hpast)
      | again hin => exact absurd hin (Nat.not_le.2 hpast)
  | done hin hround =>
      cases h' with
      | past hpast => exact absurd hin (Nat.not_le.2 hpast)
      | done _ hround' =>
          have heq := hround.symm.trans hround'
          simp only [Option.some.injEq, Round.done.injEq] at heq
          exact ⟨rfl, heq⟩
      | again _ hround' => exact absurd (hround.symm.trans hround') (by simp)
  | again hin hround hrest ih =>
      cases h' with
      | past hpast => exact absurd hin (Nat.not_le.2 hpast)
      | done _ hround' => exact absurd (hround.symm.trans hround') (by simp)
      | again _ hround' hrest' =>
          have heq := hround.symm.trans hround'
          simp only [Option.some.injEq, Round.again.injEq] at heq
          obtain ⟨rfl, rfl⟩ := ih (heq ▸ hrest')
          exact ⟨rfl, rfl⟩

/-! ## Rounds -/

/-- Without an escape char the first match is the answer. -/
theorem round_none : round find text none byte = some (.done (find byte)) := by
  rw [round]
  cases find byte <;> rfl

/-- A search without a match ends with none. -/
theorem round_of_none (h : find byte = none) : round find text escape byte = some (.done none) := by
  rw [round, h]

/-- A match that is not escaped is the answer. -/
theorem round_of_plain (h : find byte = some m) (hstart : m.start = offset text p)
    (hp : p ≤ text.size) (hplain : ∀ e, escape = some e → isEscaped text e p = false) :
    round find text escape byte = some (.done (some m)) := by
  rw [round, h]
  cases escape with
  | none => rfl
  | some e =>
      simp only [hstart, isEscaped?_offset e hp, hplain e rfl]
      rfl

/-- A match that is escaped is passed over, and the search goes on one char later. -/
theorem round_of_escaped {e : Char} (h : find byte = some m) (hstart : m.start = offset text p)
    (hp : p ≤ text.size) (hescaped : isEscaped text e p = true) :
    round find text (some e) byte = some (.again (offset text (p + 1))) := by
  rw [round, h]
  simp only [hstart, isEscaped?_offset e hp, hescaped, next?_offset hp]
  rfl

/-- **One round** from a char position comes to the answer, or goes on from a later position and
    passes over hidden matches only. -/
theorem Matcher.round_cases (h : Matcher text find matchAt) (escape : Option Char)
    (hp : p ≤ text.size) :
    (∃ answer, round find text escape (offset text p) = some (.done answer) ∧
      Answers text matchAt escape (offset text p) answer) ∨
    ∃ p', p < p' ∧ round find text escape (offset text p) = some (.again (offset text p')) ∧
      ∀ q, offset text p ≤ q → q < offset text p' → IsBoundary text.toList q →
        (matchAt q).isSome = true → Hidden text escape q := by
  have hbyte : IsBoundary text.toList (offset text p) := isBoundary_iff.2 ⟨p, hp, rfl⟩
  cases hfind : find (offset text p) with
  | none =>
      refine .inl ⟨none, round_of_none hfind, fun q hle hq hsome => ?_⟩
      rw [h.missed hbyte hfind q hle hq] at hsome
      exact nomatch hsome
  | some m =>
      obtain ⟨hle, hboundary, hhere, hleast⟩ := h.found hbyte hfind
      obtain ⟨p', hp', hstart⟩ := isBoundary_iff.1 hboundary
      have hpp' : p ≤ p' := offset_le_iff.1 (hstart ▸ hle)
      by_cases hhidden : Hidden text escape m.start
      · obtain ⟨e, -, -, -, rfl, -⟩ := id hhidden
        have hescaped := (hidden_offset_iff hp').1 (hstart ▸ hhidden)
        refine .inr ⟨p' + 1, Nat.lt_succ_of_le hpp', round_of_escaped hfind hstart hp' hescaped, ?_⟩
        intro q hle hlt hq hsome
        rcases Nat.lt_or_ge q m.start with hbefore | hbehind
        · rw [hleast q hle hbefore hq] at hsome
          exact nomatch hsome
        · -- there is no other position before the next one
          obtain ⟨i, hi, rfl⟩ := isBoundary_iff.1 hq
          have hlow : p' ≤ i := offset_le_iff.1 (hstart ▸ hbehind)
          have hhigh : i < p' + 1 := offset_lt_iff.1 hlt
          obtain rfl : i = p' := by omega
          rwa [← hstart]
      · have hplain : ∀ e, escape = some e → isEscaped text e p' = false := by
          rintro e rfl
          rw [hstart, hidden_offset_iff hp'] at hhidden
          exact Bool.eq_false_iff.2 hhidden
        refine .inl ⟨some m, round_of_plain hfind hstart hp' hplain, hle, hboundary, hhere, hhidden,
          fun q hle hlt hq hsome => ?_⟩
        rw [hleast q hle hlt hq] at hsome
        exact nomatch hsome

/-- **A search comes to an end**, asks between chars, and answers the match at the least start that
    is not hidden. -/
theorem Matcher.exists_searches (h : Matcher text find matchAt) (escape : Option Char) (p : Nat) :
    ∃ asked answer, Searches find text escape (offset text p) asked answer ∧
      (∀ q ∈ asked, IsBoundary text.toList q) ∧
      Answers text matchAt escape (offset text p) answer := by
  by_cases hp : p ≤ text.size
  · have hbyte : IsBoundary text.toList (offset text p) := isBoundary_iff.2 ⟨p, hp, rfl⟩
    have hin := offset_le_byteLength hp
    -- each round asks from a later position, so the positions left are the measure
    rcases h.round_cases escape hp with ⟨answer, hround, hanswer⟩ | ⟨p', hlt, hround, hpassed⟩
    · refine ⟨_, answer, .done hin hround, fun q hq => ?_, hanswer⟩
      rwa [List.mem_singleton.1 hq]
    · obtain ⟨asked, answer, hsearch, hasked, hanswer⟩ := h.exists_searches escape p'
      exact ⟨_, answer, .again hin hround hsearch, List.forall_mem_cons.2 ⟨hbyte, hasked⟩,
        hanswer.of_passed (offset_le_iff.2 (Nat.le_of_lt hlt)) hpassed⟩
  · refine ⟨[], none, .past (byteLength_lt_iff.2 (Nat.not_le.1 hp)), nofun, fun q hle hq _ => ?_⟩
    obtain ⟨i, hi, rfl⟩ := isBoundary_iff.1 hq
    exact absurd (Nat.le_trans (offset_le_iff.1 hle) hi) hp
termination_by text.size + 1 - p
decreasing_by omega

/-! ## Matchers by char positions -/

/-- The next match at or after a byte offset; none inside the code of a char. -/
def findFrom (text : Array Char) (r : Highlighter.Matcher) (byte : Nat) : Option Extent :=
  (splitAt? text.toList byte).bind fun parts => (r.find? text parts.1.length).map (inBytes text)

/-- The end of the match that starts at a byte offset. -/
def endFrom (text : Array Char) (r : Highlighter.Matcher) (byte : Nat) : Option Nat :=
  (splitAt? text.toList byte).bind fun parts => (r.endAt? text parts.1.length).map (offset text)

/-- A search from the byte offset of a position is the search from the position. -/
theorem findFrom_offset (r : Highlighter.Matcher) (hp : p ≤ text.size) :
    findFrom text r (offset text p) = (r.find? text p).map (inBytes text) := by
  rw [findFrom, splitAt?_offset hp, Option.bind_some, List.length_take, Array.length_toList,
    Nat.min_eq_left hp]

/-- A match that begins at a byte offset is the one that begins at its position. -/
theorem endFrom_offset (r : Highlighter.Matcher) (hp : p ≤ text.size) :
    endFrom text r (offset text p) = (r.endAt? text p).map (offset text) := by
  rw [endFrom, splitAt?_offset hp, Option.bind_some, List.length_take, Array.length_toList,
    Nat.min_eq_left hp]

/-- What is lawful by char positions is a matcher of the text by byte offsets. -/
theorem matcher_of_lawful (text : Array Char) {r : Highlighter.Matcher} (hlawful : r.Lawful) :
    Matcher text (findFrom text r) (endFrom text r) := by
  constructor
  · rintro byte m hbyte hfind
    obtain ⟨p, hp, rfl⟩ := isBoundary_iff.1 hbyte
    rw [findFrom_offset r hp] at hfind
    obtain ⟨m, hm, rfl⟩ := Option.map_eq_some_iff.1 hfind
    rw [hlawful.find?_eq_firstFrom] at hm
    obtain ⟨i, hpi, hi, hhere, hbefore⟩ := firstFrom_eq_some hm
    obtain ⟨stop, hstop, rfl⟩ := Option.map_eq_some_iff.1 hhere
    refine ⟨offset_le_iff.2 hpi, isBoundary_iff.2 ⟨i, hi, rfl⟩, ?_, fun q hle hlt hq => ?_⟩
    · show endFrom text r (offset text i) = some (offset text stop)
      rw [endFrom_offset r hi, hstop, Option.map_some]
    · obtain ⟨j, hj, rfl⟩ := isBoundary_iff.1 hq
      rw [endFrom_offset r hj]
      have hnone := hbefore j (offset_le_iff.1 hle) (offset_lt_iff.1 hlt)
      rw [Option.map_eq_none_iff] at hnone ⊢
      exact hnone
  · intro byte hbyte hfind q hle hq
    obtain ⟨p, hp, rfl⟩ := isBoundary_iff.1 hbyte
    obtain ⟨j, hj, rfl⟩ := isBoundary_iff.1 hq
    rw [findFrom_offset r hp, Option.map_eq_none_iff, hlawful.find?_eq_firstFrom,
      firstFrom_eq_none_iff] at hfind
    have hnone := hfind j (offset_le_iff.1 hle) hj
    rw [endFrom_offset r hj]
    rw [Option.map_eq_none_iff] at hnone ⊢
    exact hnone

/-- Where a search by char positions finds a match, the one by byte offsets finds it too. -/
theorem findFrom_of_some {r : Highlighter.Matcher} (hm : r.find? text p = some m) :
    p ≤ text.size ∧ m.start ≤ text.size ∧
      findFrom text r (offset text p) = some (inBytes text m) := by
  obtain ⟨hle, hstop, hend⟩ := r.bounds hm
  have hstart : m.start ≤ text.size := Nat.le_trans hstop hend
  have hp : p ≤ text.size := Nat.le_trans hle hstart
  refine ⟨hp, hstart, ?_⟩
  rw [findFrom_offset r hp, hm, Option.map_some]

/-- The search by char positions is the one by byte offsets. -/
theorem searches_nextUnescaped (text : Array Char) (escape : Option Char) (r : Highlighter.Matcher)
    (p : Nat) :
    ∃ asked, Searches (findFrom text r) text escape (offset text p) asked
      ((nextUnescaped text escape r p).map (inBytes text)) := by
  fun_induction nextUnescaped text escape r p with
  | case1 p hm =>
      by_cases hp : p ≤ text.size
      · refine ⟨_, .done (offset_le_byteLength hp) (round_of_none ?_)⟩
        rw [findFrom_offset r hp, hm, Option.map_none]
      · exact ⟨_, .past (byteLength_lt_iff.2 (Nat.not_le.1 hp))⟩
  | case2 p m hm hescaped ih =>
      obtain ⟨hp, hstart, hfind⟩ := findFrom_of_some hm
      obtain ⟨e, rfl, he⟩ := (Option.any_eq_true _ _).1 hescaped
      obtain ⟨asked, hsearch⟩ := ih
      exact ⟨_, .again (offset_le_byteLength hp) (round_of_escaped hfind rfl hstart he) hsearch⟩
  | case3 p m hm hescaped =>
      obtain ⟨hp, hstart, hfind⟩ := findFrom_of_some hm
      refine ⟨_, .done (offset_le_byteLength hp) (round_of_plain hfind rfl hstart ?_)⟩
      rintro e rfl
      exact Bool.eq_false_iff.2 hescaped

/-! ## The search -/

/-- **The search answers the match at the least start that is not hidden.**  Over any matcher, a
    search from between two chars has one run: it asks from between chars only, answers the
    match at the least start from there on that no odd run of escape chars hides, the run
    reaching back before the search if need be, answers none when every match is hidden, and
    without an escape char answers what the matcher does.  The engine is such a matcher, and
    the search over it by char positions is this one. -/
theorem search_leastPlain (text : Array Char) (escape : Option Char) :
    (∀ find matchAt, Matcher text find matchAt → ∀ byte, IsBoundary text.toList byte →
      ∃ asked answer,
        (∀ asked' answer', Searches find text escape byte asked' answer' ↔
          asked' = asked ∧ answer' = answer) ∧
        (∀ q ∈ asked, IsBoundary text.toList q) ∧
        (∀ m, answer = some m ↔ LeastPlain text matchAt escape byte m) ∧
        (answer = none ↔ AllHidden text matchAt escape byte) ∧
        (escape = none → answer = find byte)) ∧
    ∀ r : Regex, Matcher text (findFrom text r) (endFrom text r) ∧
      ∀ p, ∃ asked, Searches (findFrom text r) text escape (offset text p) asked
        ((nextUnescaped text escape r p).map (inBytes text)) := by
  refine ⟨fun find matchAt hmatcher byte hbyte => ?_, fun r =>
    ⟨matcher_of_lawful text r.lawful_matcher, searches_nextUnescaped text escape r⟩⟩
  obtain ⟨p, hp, rfl⟩ := isBoundary_iff.1 hbyte
  obtain ⟨asked, answer, hsearch, hasked, hanswer⟩ := hmatcher.exists_searches escape p
  refine ⟨asked, answer, fun asked' answer' => ⟨fun h => h.unique hsearch, ?_⟩, hasked,
    fun m => hanswer.eq_some_iff, hanswer.eq_none_iff, ?_⟩
  · rintro ⟨rfl, rfl⟩
    exact hsearch
  · rintro rfl
    exact (hsearch.unique (.done (offset_le_byteLength hp) round_none)).2

/-- An umlaut, a hidden quote, and one behind two backslashes. -/
def quoted : Array Char := #['ü', '\\', '"', '\\', '\\', '"']

/-- A quote. -/
def quote : Regex := .char ⟨[(34, 34)]⟩

theorem nextUnescaped_quoted : nextUnescaped quoted (some '\\') quote 2 = some ⟨5, 6⟩ := by
  have hat : unescapedAt? quoted (some '\\') quote = fun q =>
      if isEscaped quoted '\\' q then none
      else (if quoted[q]?.any (CharSet.contains ⟨[(34, 34)]⟩) = true then some (q + 1) else none).map
        (Extent.mk q) := by
    funext q
    rw [unescapedAt?, quote, Regex.endAt?_char, Option.any_some]
  rw [nextUnescaped_eq_firstFrom quote.lawful_matcher, hat]
  decide

/-- From the quote at byte 3, which the backslash before the search hides, the answer is the other. -/
theorem search_leastPlain_quoted :
    Matcher quoted (findFrom quoted quote) (endFrom quoted quote) ∧
      IsBoundary quoted.toList 3 ∧
      Hidden quoted (some '\\') 3 ∧
      LeastPlain quoted (endFrom quoted quote) (some '\\') 3 ⟨6, 7⟩ ∧
      ∃ asked, Searches (findFrom quoted quote) quoted (some '\\') 3 asked (some ⟨6, 7⟩) := by
  obtain ⟨hsearches, hengine⟩ := search_leastPlain quoted (some '\\')
  obtain ⟨hmatcher, hnext⟩ := hengine quote
  have hbyte : IsBoundary quoted.toList 3 := isBoundary_iff.2 ⟨2, by decide, by decide⟩
  have hhidden : Hidden quoted (some '\\') 3 := (hidden_offset_iff (p := 2) (by decide)).2 (by decide)
  obtain ⟨asked, hrun⟩ := hnext 2
  have hrun : Searches (findFrom quoted quote) quoted (some '\\') 3 asked (some ⟨6, 7⟩) := by
    rwa [nextUnescaped_quoted] at hrun
  obtain ⟨_, _, hone, -, hsome, -⟩ := hsearches _ _ hmatcher 3 hbyte
  obtain ⟨rfl, rfl⟩ := (hone _ _).1 hrun
  exact ⟨hmatcher, hbyte, hhidden, (hsome _).1 rfl, _, hrun⟩

end Encoded

end Highlighter
