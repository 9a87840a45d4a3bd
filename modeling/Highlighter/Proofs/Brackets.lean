import Highlighter.Bracket
import Highlighter.Proofs.Batches

/-! # Brackets — partners enclose what is balanced

    Between the first bracket and the one that closes it, the brackets of the pair in their
    class are balanced: as many open as close, and read away from the first bracket no part
    closes more than it has opened (`Bracket.Balanced`).  That is all the scan looks for
    (`scanPartner_eq_some_iff`).

    Read backwards, opening and closing trade places, and what was balanced is balanced
    again (`Balanced.reverse`).  So the two directions of the scan look for the same pairs
    (`matchingBracket?_eq_some_iff`), and whichever bracket of a pair one starts at, one gets
    to the other. -/

namespace Highlighter

variable {κ : Type} [DecidableEq κ]

namespace Bracket

/-- What a char adds to the brackets that are open.  A bracket of another class adds nothing. -/
def weight (classAt : Nat → κ) (kind : κ) (opening closing : Char) (x : Nat × Char) : Int :=
  if classAt x.1 ≠ kind then 0
  else if x.2 = opening then 1
  else if x.2 = closing then -1
  else 0

section Heights

variable {α : Type} {w w' : α → Int} {x : α} {l : List α} {d : Int}

/-- Brackets left open by a run of chars. -/
def height (w : α → Int) : List α → Int
  | [] => 0
  | x :: l => w x + height w l

/-- With `d` brackets open before it, no part of a run closes more than are open. -/
def Stays (w : α → Int) (d : Int) (l : List α) : Prop := ∀ n, 0 ≤ d + height w (l.take n)

/-- All that a run opens it closes, and in this order. -/
structure Balanced (w : α → Int) (l : List α) : Prop where
  stays  : Stays w 0 l
  height : height w l = 0

@[simp] theorem height_nil : height w [] = 0 := rfl

@[simp] theorem height_cons : height w (x :: l) = w x + height w l := rfl

/-- Heights of lists put together add up. -/
theorem height_append (l l' : List α) : height w (l ++ l') = height w l + height w l' := by
  induction l with
  | nil => exact (Int.zero_add _).symm
  | cons x l ih => rw [List.cons_append, height_cons, height_cons, ih, Int.add_assoc]

/-- A height does not depend on the order. -/
theorem height_reverse (l : List α) : height w l.reverse = height w l := by
  induction l with
  | nil => rfl
  | cons x rest ih =>
      rw [List.reverse_cons, height_append, ih, height_cons, height_cons, height_nil, Int.add_zero,
        Int.add_comm]

/-- Where opening and closing trade places, so do rise and fall. -/
theorem height_neg (h : ∀ x, w' x = -w x) (l : List α) : height w' l = -height w l := by
  induction l with
  | nil => rfl
  | cons x rest ih => rw [height_cons, height_cons, ih, h, Int.neg_add]

theorem stays_nil (hd : 0 ≤ d) : Stays w d [] := by
  intro n
  simpa using hd

/-- A run closes no more than is open if nothing is amiss before its first char, nor behind it. -/
theorem stays_cons_iff : Stays w d (x :: l) ↔ 0 ≤ d ∧ Stays w (d + w x) l := by
  constructor
  · intro h
    refine ⟨by simpa using h 0, ?_⟩
    intro n
    have hnext := h (n + 1)
    rwa [List.take_succ_cons, height_cons, ← Int.add_assoc] at hnext
  · rintro ⟨hd, h⟩ n
    cases n with
    | zero => simpa using hd
    | succ n =>
        rw [List.take_succ_cons, height_cons, ← Int.add_assoc]
        exact h n

/-- **Balanced, read backwards, is balanced**, as opening and closing trade places. -/
theorem Balanced.reverse (h : Balanced w l) (hneg : ∀ x, w' x = -w x) : Balanced w' l.reverse := by
  constructor
  · intro n
    -- what is read first now was read last, and it closes as much as is open before it
    have hsplit := height_append (w := w) (l.take (l.length - n)) (l.drop (l.length - n))
    rw [List.take_append_drop, h.height] at hsplit
    have hstays := h.stays (l.length - n)
    rw [List.take_reverse, height_reverse, height_neg hneg]
    omega
  · rw [height_reverse, height_neg hneg, h.height]
    rfl

end Heights

variable {classAt : Nat → κ} {kind : κ} {opening closing : Char}

/-- With the brackets swapped every char weighs the opposite. -/
theorem weight_swap (hne : opening ≠ closing) (x : Nat × Char) :
    weight classAt kind closing opening x = -weight classAt kind opening closing x := by
  unfold weight
  by_cases hclass : classAt x.1 = kind
  · by_cases hopens : x.2 = opening
    · simp [hclass, hopens, hne]
    · by_cases hcloses : x.2 = closing
      · simp [hclass, hcloses, Ne.symm hne]
      · simp [hclass, hopens, hcloses]
  · simp [hclass]

/-- An opening bracket of the class counts one more. -/
theorem weight_opening {o : Nat} (hclass : classAt o = kind) :
    weight classAt kind opening closing (o, opening) = 1 := by
  simp [weight, hclass]

/-- A closing bracket of the class counts one less. -/
theorem weight_closing (hne : opening ≠ closing) {o : Nat} (hclass : classAt o = kind) :
    weight classAt kind opening closing (o, closing) = -1 := by
  simp [weight, hclass, Ne.symm hne]

/-- What is no bracket of the pair in this class. -/
theorem weight_other {o : Nat} {c : Char} (h : (c ≠ opening ∧ c ≠ closing) ∨ classAt o ≠ kind) :
    weight classAt kind opening closing (o, c) = 0 := by
  rcases h with ⟨hopens, hcloses⟩ | hclass
  · simp [weight, hopens, hcloses]
  · simp [weight, hclass]

end Bracket

open Highlighter.Bracket

/-! ## The scan -/

section Scan

variable {classAt : Nat → κ} {kind : κ} {opening closing : Char} {d : Int} {m : Nat}
  {x : Nat × Char} {chars : List (Nat × Char)}

/-- The first bracket that closes more than is open, with `d` brackets open before the chars, is the
    one at `m`. -/
def ClosesAt (classAt : Nat → κ) (kind : κ) (opening closing : Char) (d : Int)
    (chars : List (Nat × Char)) (m : Nat) : Prop :=
  ∃ before after, chars = before ++ (m, closing) :: after ∧ classAt m = kind ∧
    Stays (weight classAt kind opening closing) d before ∧
    d + height (weight classAt kind opening closing) before = 0

theorem ClosesAt.nonneg (h : ClosesAt classAt kind opening closing d chars m) : 0 ≤ d := by
  obtain ⟨before, after, -, -, hstays, -⟩ := h
  simpa using hstays 0

/-- It is the first char, or what the first char leaves open is closed behind it. -/
theorem closesAt_cons_iff : ClosesAt classAt kind opening closing d (x :: chars) m ↔
    (d = 0 ∧ x = (m, closing) ∧ classAt m = kind) ∨
      (0 ≤ d ∧ ClosesAt classAt kind opening closing (d + weight classAt kind opening closing x)
        chars m) := by
  constructor
  · rintro ⟨before, after, heq, hclass, hstays, hheight⟩
    cases before with
    | nil =>
        obtain ⟨hx, -⟩ := List.cons.inj heq
        exact .inl ⟨by simpa using hheight, hx, hclass⟩
    | cons y before =>
        obtain ⟨rfl, hrest⟩ := List.cons.inj heq
        obtain ⟨hd, hstays⟩ := stays_cons_iff.1 hstays
        rw [height_cons, ← Int.add_assoc] at hheight
        exact .inr ⟨hd, before, after, hrest, hclass, hstays, hheight⟩
  · rintro (⟨rfl, rfl, hclass⟩ | ⟨hd, before, after, rfl, hclass, hstays, hheight⟩)
    · exact ⟨[], chars, rfl, hclass, stays_nil (Int.le_refl 0), rfl⟩
    · refine ⟨x :: before, after, rfl, hclass, stays_cons_iff.2 ⟨hd, hstays⟩, ?_⟩
      rwa [height_cons, ← Int.add_assoc]

/-- What does not close a bracket is passed. -/
theorem closesAt_cons_of_other (hother : ¬(x.2 = closing ∧ classAt x.1 = kind)) (depth : Nat) :
    ClosesAt classAt kind opening closing depth (x :: chars) m ↔
      ClosesAt classAt kind opening closing (depth + weight classAt kind opening closing x)
        chars m := by
  rw [closesAt_cons_iff]
  constructor
  · rintro (⟨-, rfl, hclass⟩ | ⟨-, h⟩)
    · exact absurd ⟨rfl, hclass⟩ hother
    · exact h
  · intro h
    exact .inr ⟨Int.natCast_nonneg depth, h⟩

/-- With no bracket open, the first char that closes one is the one looked for. -/
theorem closesAt_cons_closing_zero (hne : opening ≠ closing) {o : Nat} (hclass : classAt o = kind) :
    ClosesAt classAt kind opening closing 0 ((o, closing) :: chars) m ↔ o = m := by
  rw [closesAt_cons_iff, weight_closing hne hclass]
  constructor
  · rintro (⟨-, heq, -⟩ | ⟨-, h⟩)
    · exact (Prod.mk.inj heq).1
    · exact absurd h.nonneg (by decide)
  · rintro rfl
    exact .inl ⟨rfl, rfl, hclass⟩

/-- Else it closes one of those that are open. -/
theorem closesAt_cons_closing_succ (hne : opening ≠ closing) {o : Nat} (hclass : classAt o = kind)
    (depth : Nat) :
    ClosesAt classAt kind opening closing (depth + 1 : Nat) ((o, closing) :: chars) m ↔
      ClosesAt classAt kind opening closing depth chars m := by
  have hless : ((depth + 1 : Nat) : Int) + -1 = depth := by omega
  rw [closesAt_cons_iff, weight_closing hne hclass, hless]
  constructor
  · rintro (⟨hzero, -⟩ | ⟨-, h⟩)
    · omega
    · exact h
  · intro h
    exact .inr ⟨Int.natCast_nonneg (depth + 1), h⟩

/-- **The scan** finds the first bracket that closes more than is open. -/
theorem scanPartner_eq_some_iff (hne : opening ≠ closing) (depth : Nat) :
    scanPartner classAt opening closing kind depth chars = some m ↔
      ClosesAt classAt kind opening closing depth chars m := by
  induction chars generalizing depth with
  | nil =>
      constructor
      · intro h
        exact absurd h.symm (Option.some_ne_none m)
      · rintro ⟨before, after, heq, -⟩
        exact absurd heq.symm (List.append_ne_nil_of_right_ne_nil before (List.cons_ne_nil _ _))
  | cons x rest ih =>
      obtain ⟨o, c⟩ := x
      unfold scanPartner
      by_cases hskip : (c ≠ opening ∧ c ≠ closing) ∨ classAt o ≠ kind
      · have hother : ¬(c = closing ∧ classAt o = kind) := by
          rintro ⟨rfl, hclass⟩
          exact hskip.elim (fun h => h.2 rfl) fun h => h hclass
        rw [if_pos hskip, ih, closesAt_cons_of_other hother, weight_other hskip, Int.add_zero]
      · rw [if_neg hskip]
        simp only [not_or, not_and, Decidable.not_not] at hskip
        obtain ⟨hpair, hclass⟩ := hskip
        by_cases hopens : c = opening
        · subst hopens
          have hother : ¬(c = closing ∧ classAt o = kind) := fun h => hne h.1
          rw [if_pos rfl, ih, closesAt_cons_of_other hother, weight_opening hclass]
          rfl
        · obtain rfl : c = closing := hpair hopens
          rw [if_neg hopens]
          cases depth with
          | zero =>
              rw [Int.natCast_zero, closesAt_cons_closing_zero hne hclass]
              exact Option.some_inj
          | succ depth =>
              rw [closesAt_cons_closing_succ hne hclass]
              exact ih depth

end Scan

/-! ## Chars of an extent -/

/-- The chars of an extent come with their offsets. -/
theorem getElem?_charsOf (doc : Document) (e : Extent) (i : Nat) :
    (charsOf doc e)[i]? =
      if e.start + i < e.stop then (doc.charAt? (e.start + i)).map (e.start + i, ·) else none := by
  rw [charsOf, List.getElem?_map, List.getElem?_zipIdx, Array.getElem?_toList, doc.getElem?_slice,
    doc.charAt?_eq]
  split
  · rw [Option.map_map]
    rfl
  · rfl

theorem length_charsOf (doc : Document) (e : Extent) :
    (charsOf doc e).length = min e.stop doc.length - e.start := by
  rw [charsOf, List.length_map, List.length_zipIdx, Array.length_toList, doc.size_slice]

/-- A char of an extent stands between those before it and those behind it. -/
theorem charsOf_split {doc : Document} {u v m : Nat} {c : Char} (hu : u ≤ m) (hv : m < v)
    (hc : doc.charAt? m = some c) :
    charsOf doc ⟨u, v⟩ = charsOf doc ⟨u, m⟩ ++ (m, c) :: charsOf doc ⟨m + 1, v⟩ := by
  have hm : m < doc.length := doc.lt_length_of_charAt? hc
  have hbefore : (charsOf doc ⟨u, m⟩).length = m - u := by
    rw [length_charsOf]
    show min m doc.length - u = m - u
    omega
  apply List.ext_getElem?
  intro i
  rcases Nat.lt_trichotomy i (m - u) with hlt | heq | hgt
  · rw [List.getElem?_append_left (by omega), getElem?_charsOf, getElem?_charsOf]
    simp only
    rw [if_pos (by omega), if_pos (by omega)]
  · rw [List.getElem?_append_right (by omega), hbefore, getElem?_charsOf]
    have hi : u + i = m := by omega
    have hzero : i - (m - u) = 0 := by omega
    simp only [hi, hzero, hv, if_true, hc, Option.map_some, List.getElem?_cons_zero]
  · obtain ⟨j, rfl⟩ := Nat.exists_eq_add_of_lt hgt
    have hj : m - u + j + 1 - (m - u) = j + 1 := by omega
    have hi : u + (m - u + j + 1) = m + 1 + j := by omega
    rw [List.getElem?_append_right (by omega), hbefore, hj, List.getElem?_cons_succ,
      getElem?_charsOf, getElem?_charsOf]
    simp only [hi]

/-- What stands before one of the chars of an extent are the chars up to its offset. -/
theorem charsOf_eq_append {doc : Document} {u v m : Nat} {c : Char}
    {before after : List (Nat × Char)}
    (h : charsOf doc ⟨u, v⟩ = before ++ (m, c) :: after) :
    u ≤ m ∧ m < v ∧ doc.charAt? m = some c ∧ before = charsOf doc ⟨u, m⟩ := by
  have hat : (charsOf doc ⟨u, v⟩)[before.length]? = some (m, c) := by
    rw [h, List.getElem?_append_right (Nat.le_refl _), Nat.sub_self]
    rfl
  rw [getElem?_charsOf] at hat
  obtain ⟨hv, hat⟩ := Option.ite_none_right_eq_some.1 hat
  obtain ⟨c', hc, heq⟩ := Option.map_eq_some_iff.1 hat
  obtain ⟨rfl, rfl⟩ := Prod.mk.inj heq
  have hm : u + before.length < doc.length := doc.lt_length_of_charAt? hc
  refine ⟨Nat.le_add_right _ _, hv, hc, ?_⟩
  rw [charsOf_split (Nat.le_add_right _ _) hv hc] at h
  refine (List.append_inj_left h ?_).symm
  rw [length_charsOf]
  show min (u + before.length) doc.length - u = before.length
  omega

/-! ## What a scan looks at -/

section Alike

variable {κ κ' : Type} [DecidableEq κ] [DecidableEq κ'] {classAt : Nat → κ} {classAt' : Nat → κ'}

/-- A scan asks for classes only where it looks, and only whether they are that of the bracket. -/
theorem scanPartner_congr {kind : κ} {kind' : κ'} {bracket other : Char}
    {chars : List (Nat × Char)} (h : ∀ x ∈ chars, classAt x.1 = kind ↔ classAt' x.1 = kind')
    (depth : Nat) :
    scanPartner classAt bracket other kind depth chars =
      scanPartner classAt' bracket other kind' depth chars := by
  induction chars generalizing depth with
  | nil => rfl
  | cons x rest ih =>
      obtain ⟨o, c⟩ := x
      have hrest := ih fun x hx => h x (List.mem_cons_of_mem _ hx)
      have hhere : classAt o = kind ↔ classAt' o = kind' := h (o, c) List.mem_cons_self
      unfold scanPartner
      simp only [ne_eq, hhere, hrest]

/-- The chars of an extent lie before its end, and before the end of the text. -/
theorem lt_of_mem_charsOf {doc : Document} {e : Extent} {x : Nat × Char} (h : x ∈ charsOf doc e) :
    x.1 < e.stop ∧ x.1 < doc.length := by
  obtain ⟨⟨c, o⟩, hmem, rfl⟩ := List.mem_map.1 h
  have hlt := List.snd_lt_of_mem_zipIdx hmem
  have hle := List.le_snd_of_mem_zipIdx hmem
  have hsize := doc.size_slice e
  rw [Array.length_toList, hsize] at hlt
  show o < e.stop ∧ o < doc.length
  omega

/-- A bracket finds the same partner when the offsets it looks at are told apart alike. -/
theorem matchingBracket?_congr {doc : Document} {pos : Nat} {limit : Option Nat}
    (h : ∀ o o', o < doc.length → o' < doc.length → (∀ l, limit = some l → o < pos + l) →
      o' + 1 = pos → (classAt o = classAt o' ↔ classAt' o = classAt' o')) :
    matchingBracket? doc pos limit classAt = matchingBracket? doc pos limit classAt' := by
  cases pos with
  | zero => rfl
  | succ origin =>
      rw [matchingBracket?, matchingBracket?]
      cases hchar : doc.charAt? origin with
      | none => rfl
      | some bracket =>
          have horigin : origin < doc.length := doc.lt_length_of_charAt? hchar
          cases hpartner : partner? bracket with
          | none => simp [hpartner]
          | some partner =>
              obtain ⟨other, forward⟩ := partner
              simp only [Option.bind_eq_bind, Option.bind_some, hpartner]
              refine scanPartner_congr ?_ 0
              intro x hx
              refine h x.1 origin ?_ horigin ?_ rfl
              · cases forward with
                | true => exact (lt_of_mem_charsOf hx).2
                | false => exact (lt_of_mem_charsOf (List.mem_reverse.1 hx)).2
              · rintro l rfl
                cases forward with
                | true =>
                    have := (lt_of_mem_charsOf hx).1
                    simp only [Option.getD_some] at this
                    omega
                | false =>
                    have : x.1 < origin := (lt_of_mem_charsOf (List.mem_reverse.1 hx)).1
                    omega

end Alike

/-! ## Partners -/

/-- Either bracket of a pair names the other, and says on which side it lies. -/
theorem partner?_eq_some_iff {c other : Char} {ahead : Bool} :
    partner? c = some (other, ahead) ↔
      (ahead = true ∧ (c, other) ∈ bracketPairs) ∨ (ahead = false ∧ (other, c) ∈ bracketPairs) := by
  constructor
  · intro h
    obtain ⟨⟨opening, closing⟩, hmem, hpair⟩ := List.exists_of_findSome?_eq_some h
    simp only at hpair
    split at hpair
    · obtain ⟨rfl, rfl⟩ := Prod.mk.inj (Option.some.inj hpair)
      subst c
      exact .inl ⟨rfl, hmem⟩
    · split at hpair
      · obtain ⟨rfl, rfl⟩ := Prod.mk.inj (Option.some.inj hpair)
        subst c
        exact .inr ⟨rfl, hmem⟩
      · exact absurd hpair.symm (Option.some_ne_none _)
  · have hall : ∀ pair ∈ bracketPairs,
        partner? pair.1 = some (pair.2, true) ∧ partner? pair.2 = some (pair.1, false) := by decide
    rintro (⟨rfl, hmem⟩ | ⟨rfl, hmem⟩)
    · exact (hall _ hmem).1
    · exact (hall _ hmem).2

/-- No bracket is its own partner. -/
theorem ne_of_mem_bracketPairs {opening closing : Char}
    (h : (opening, closing) ∈ bracketPairs) : opening ≠ closing := by
  have hall : ∀ pair ∈ bracketPairs, pair.1 ≠ pair.2 := by decide
  exact hall _ h

variable {doc : Document} {classAt : Nat → κ} {opening closing : Char} {origin pos m : Nat}
  {limit : Option Nat}

/-- An opening bracket at `a` and a closing one at `b` of the same pair and the same class enclose
    what is balanced. -/
structure Partners (doc : Document) (classAt : Nat → κ) (opening closing : Char) (a b : Nat) :
    Prop where
  pair     : (opening, closing) ∈ bracketPairs
  lt       : a < b
  opens    : doc.charAt? a = some opening
  closes   : doc.charAt? b = some closing
  class_eq : classAt b = classAt a
  balanced : Balanced (weight classAt (classAt a) opening closing) (charsOf doc ⟨a + 1, b⟩)

/-- No limit, or one that is not below a distance. -/
def Allows (limit : Option Nat) (distance : Nat) : Prop := ∀ l, limit = some l → distance ≤ l

/-- What closes a bracket among the chars behind it. -/
theorem closesAt_ahead_iff (hpair : (opening, closing) ∈ bracketPairs)
    (hopens : doc.charAt? origin = some opening) :
    ClosesAt classAt (classAt origin) opening closing 0
        (charsOf doc ⟨origin + 1, min doc.length (origin + 1 + limit.getD doc.length)⟩) m ↔
      Partners doc classAt opening closing origin m ∧ Allows limit (m - origin) := by
  constructor
  · rintro ⟨before, after, heq, hclass, hstays, hheight⟩
    obtain ⟨hlt, hreach, hcloses, rfl⟩ := charsOf_eq_append heq
    refine ⟨⟨hpair, hlt, hopens, hcloses, hclass, hstays, by simpa using hheight⟩, ?_⟩
    rintro l rfl
    rw [Option.getD_some] at hreach
    omega
  · rintro ⟨⟨-, hlt, -, hcloses, hclass, hstays, hheight⟩, hlimit⟩
    have hm : m < doc.length := doc.lt_length_of_charAt? hcloses
    have hreach : m < min doc.length (origin + 1 + limit.getD doc.length) := by
      cases limit with
      | none => rw [Option.getD_none]; omega
      | some l =>
          have := hlimit l rfl
          rw [Option.getD_some]
          omega
    exact ⟨_, _, charsOf_split hlt hreach hcloses, hclass, hstays, by simpa using hheight⟩

/-- What a bracket closes among the chars before it, which the scan reads backwards. -/
theorem closesAt_behind_iff (hpair : (opening, closing) ∈ bracketPairs)
    (hcloses : doc.charAt? origin = some closing) :
    ClosesAt classAt (classAt origin) closing opening 0
        (charsOf doc ⟨origin - limit.getD origin, origin⟩).reverse m ↔
      Partners doc classAt opening closing m origin ∧ Allows limit (origin - m) := by
  have hne := ne_of_mem_bracketPairs hpair
  constructor
  · rintro ⟨before, after, heq, hclass, hstays, hheight⟩
    have hread : charsOf doc ⟨origin - limit.getD origin, origin⟩ =
        after.reverse ++ (m, opening) :: before.reverse := by
      rw [← List.reverse_reverse (charsOf doc _), heq]
      simp
    obtain ⟨hreach, hlt, hopens, hafter⟩ := charsOf_eq_append hread
    rw [charsOf_split hreach hlt hopens, ← hafter] at hread
    obtain ⟨-, hbefore⟩ := List.cons.inj (List.append_cancel_left hread)
    have hbalanced : Balanced (weight classAt (classAt m) closing opening) before :=
      hclass ▸ ⟨hstays, by simpa using hheight⟩
    refine ⟨⟨hpair, hlt, hopens, hcloses, hclass.symm, ?_⟩, ?_⟩
    · rw [hbefore]
      exact hbalanced.reverse (weight_swap hne.symm)
    · rintro l rfl
      rw [Option.getD_some] at hreach
      omega
  · rintro ⟨⟨-, hlt, hopens, -, hclass, hbalanced⟩, hlimit⟩
    have hreach : origin - limit.getD origin ≤ m := by
      cases limit with
      | none => rw [Option.getD_none]; omega
      | some l =>
          have := hlimit l rfl
          rw [Option.getD_some]
          omega
    have hswap : ∀ x, weight classAt (classAt m) closing opening x =
        -weight classAt (classAt m) opening closing x := weight_swap hne
    have hback := hbalanced.reverse hswap
    refine ⟨(charsOf doc ⟨m + 1, origin⟩).reverse,
      (charsOf doc ⟨origin - limit.getD origin, m⟩).reverse, ?_, hclass.symm, ?_, ?_⟩
    · rw [charsOf_split hreach hlt hopens]
      simp
    · rw [hclass]
      exact hback.stays
    · rw [hclass, Int.zero_add]
      exact hback.height

/-- **Partners are found from either side**: from the opening bracket ahead of it, and from the
    closing one behind it, when they are no further apart than the limit. -/
theorem matchingBracket?_eq_some_iff : matchingBracket? doc pos limit classAt = some m ↔
    ∃ origin opening closing, pos = origin + 1 ∧
      ((Partners doc classAt opening closing origin m ∧ Allows limit (m - origin)) ∨
        (Partners doc classAt opening closing m origin ∧ Allows limit (origin - m))) := by
  constructor
  · intro h
    cases pos with
    | zero => exact absurd h.symm (Option.some_ne_none m)
    | succ origin =>
        obtain ⟨bracket, hchar, h⟩ := Option.bind_eq_some_iff.1 h
        obtain ⟨⟨other, ahead⟩, hpartner, h⟩ := Option.bind_eq_some_iff.1 h
        rcases partner?_eq_some_iff.1 hpartner with ⟨rfl, hpair⟩ | ⟨rfl, hpair⟩
        · have hfound := (scanPartner_eq_some_iff (ne_of_mem_bracketPairs hpair) 0).1 h
          exact ⟨origin, bracket, other, rfl, .inl ((closesAt_ahead_iff hpair hchar).1 hfound)⟩
        · have hfound := (scanPartner_eq_some_iff (ne_of_mem_bracketPairs hpair).symm 0).1 h
          exact ⟨origin, other, bracket, rfl, .inr ((closesAt_behind_iff hpair hchar).1 hfound)⟩
  · rintro ⟨origin, opening, closing, rfl, ⟨hpartners, hlimit⟩ | ⟨hpartners, hlimit⟩⟩
    · have hpair := hpartners.pair
      have hfound := (closesAt_ahead_iff hpair hpartners.opens).2 ⟨hpartners, hlimit⟩
      refine Option.bind_eq_some_iff.2 ⟨opening, hpartners.opens, Option.bind_eq_some_iff.2
        ⟨(closing, true), partner?_eq_some_iff.2 (.inl ⟨rfl, hpair⟩), ?_⟩⟩
      exact (scanPartner_eq_some_iff (ne_of_mem_bracketPairs hpair) 0).2 hfound
    · have hpair := hpartners.pair
      have hfound := (closesAt_behind_iff hpair hpartners.closes).2 ⟨hpartners, hlimit⟩
      refine Option.bind_eq_some_iff.2 ⟨closing, hpartners.closes, Option.bind_eq_some_iff.2
        ⟨(opening, false), partner?_eq_some_iff.2 (.inr ⟨rfl, hpair⟩), ?_⟩⟩
      exact (scanPartner_eq_some_iff (ne_of_mem_bracketPairs hpair).symm 0).2 hfound

/-- **To match a bracket twice is to come back**, with the same classes and the same limit. -/
theorem matchingBracket?_involutive (h : matchingBracket? doc pos limit classAt = some m) :
    0 < pos ∧ matchingBracket? doc (m + 1) limit classAt = some (pos - 1) := by
  obtain ⟨origin, opening, closing, rfl, hfound⟩ := matchingBracket?_eq_some_iff.1 h
  refine ⟨Nat.succ_pos origin, matchingBracket?_eq_some_iff.2 ?_⟩
  -- the partner sees the same two brackets from the other side
  exact ⟨m, opening, closing, rfl, hfound.symm⟩

/-- The outer brackets of a text, with a bracket of another class between them, at a distance of
    just the limit. -/
theorem matchingBracket?_involutive_nested :
    matchingBracket? (.ofChars #['(', 'a', '(', ')', ')', ')']) 1 (some 5) (· == 4) = some 5 ∧
      0 < 1 ∧ matchingBracket? (.ofChars #['(', 'a', '(', ')', ')', ')']) 6 (some 5) (· == 4) =
        some 0 :=
  ⟨by decide, matchingBracket?_involutive (by decide)⟩

end Highlighter
