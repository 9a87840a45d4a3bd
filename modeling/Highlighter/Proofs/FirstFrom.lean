import Highlighter.Regex.LeastStart

/-! # First positions — a search answers the least position that has an answer

    The searches of this library go forward position by position and stop at the first answer
    (`firstFrom`).  What is known of one position is then all that has to be known of a search:
    positions without an answer can be skipped, and the answer comes from the least that has
    one.

    The matchers of regular expressions are lawful (`Regex.lawful_matcher`), and the searches of a
    lawful matcher are of this kind (`Matcher.Lawful.find?_eq_firstFrom`). -/

namespace Highlighter

/-- The first answer at the positions from `p` up to and including `n`. -/
def firstFrom {α : Type} (f : Nat → Option α) (p n : Nat) : Option α :=
  (List.range' p (n + 1 - p)).findSome? f

section FirstFrom

variable {α β : Type} {f : Nat → Option α} {p q n : Nat}

/-- There is no first answer when no position has one. -/
theorem firstFrom_eq_none_iff : firstFrom f p n = none ↔ ∀ i, p ≤ i → i ≤ n → f i = none := by
  unfold firstFrom
  rw [List.findSome?_eq_none_iff]
  constructor
  · intro h i hp hn
    exact h i (List.mem_range'_1.2 ⟨hp, by omega⟩)
  · intro h i hi
    have := List.mem_range'_1.1 hi
    exact h i this.1 (by omega)

theorem firstFrom_of_lt (h : n < p) : firstFrom f p n = none :=
  firstFrom_eq_none_iff.2 fun i _ _ => by omega

/-- An answer at the first position is the first. -/
theorem firstFrom_of_some {a : α} (hp : p ≤ n) (h : f p = some a) : firstFrom f p n = some a := by
  unfold firstFrom
  obtain ⟨k, hk⟩ : ∃ k, n + 1 - p = k + 1 := ⟨n - p, by omega⟩
  rw [hk, List.range'_succ, List.findSome?_cons, h]

/-- A first position without an answer can be left out. -/
theorem firstFrom_of_none (h : f p = none) : firstFrom f p n = firstFrom f (p + 1) n := by
  by_cases hp : p ≤ n
  · unfold firstFrom
    obtain ⟨k, hk⟩ : ∃ k, n + 1 - p = k + 1 := ⟨n - p, by omega⟩
    have hk' : n + 1 - (p + 1) = k := by omega
    rw [hk, hk', List.range'_succ, List.findSome?_cons, h]
  · rw [firstFrom_of_lt (by omega), firstFrom_of_lt (by omega)]

/-- Positions without an answer can be skipped. -/
theorem firstFrom_skip (hpq : p ≤ q) (h : ∀ i, p ≤ i → i < q → f i = none) :
    firstFrom f p n = firstFrom f q n := by
  obtain ⟨k, rfl⟩ := Nat.exists_eq_add_of_le hpq
  clear hpq
  induction k generalizing p with
  | zero => rfl
  | succ k ih =>
      rw [firstFrom_of_none (h p (Nat.le_refl p) (by omega)),
        ih fun i hi hlt => h i (by omega) (by omega)]
      rw [Nat.add_assoc, Nat.add_comm 1 k]

/-- The first answer comes from the least position that has one. -/
theorem firstFrom_eq_some {a : α} (h : firstFrom f p n = some a) :
    ∃ q, p ≤ q ∧ q ≤ n ∧ f q = some a ∧ ∀ i, p ≤ i → i < q → f i = none := by
  by_cases hp : p ≤ n
  · obtain ⟨k, rfl⟩ := Nat.exists_eq_add_of_le hp
    clear hp
    -- on the number of positions that are left
    induction k generalizing p with
    | zero =>
        cases hf : f p with
        | none =>
            rw [firstFrom_of_none hf, firstFrom_of_lt (by omega)] at h
            exact absurd h (Option.some_ne_none a).symm
        | some b =>
            rw [firstFrom_of_some (by omega) hf] at h
            exact ⟨p, Nat.le_refl p, Nat.le_refl _, hf.trans h, fun i _ _ => by omega⟩
    | succ k ih =>
        cases hf : f p with
        | none =>
            have hn : p + (k + 1) = p + 1 + k := by omega
            rw [firstFrom_of_none hf, hn] at h
            obtain ⟨q, hpq, hqn, hq, hnone⟩ := ih h
            refine ⟨q, by omega, by omega, hq, ?_⟩
            intro i hi hlt
            rcases Nat.eq_or_lt_of_le hi with rfl | hi
            · exact hf
            · exact hnone i hi hlt
        | some b =>
            rw [firstFrom_of_some (by omega) hf] at h
            exact ⟨p, Nat.le_refl p, by omega, hf.trans h, fun i _ _ => by omega⟩
  · rw [firstFrom_of_lt (by omega)] at h
    exact absurd h (Option.some_ne_none a).symm

/-- What is made of the first answer is the first of what is made of the answers. -/
theorem map_firstFrom (g : α → β) :
    (firstFrom f p n).map g = firstFrom (fun q => (f q).map g) p n := by
  cases h : firstFrom f p n with
  | none =>
      rw [Option.map_none, firstFrom_eq_none_iff.2]
      intro i hp hn
      rw [firstFrom_eq_none_iff.1 h i hp hn]
      rfl
  | some a =>
      obtain ⟨q, hpq, hqn, hq, hnone⟩ := firstFrom_eq_some h
      have hskip : ∀ i, p ≤ i → i < q → (f i).map g = none := fun i hi hlt => by
        rw [hnone i hi hlt]
        rfl
      have hhere : (f q).map g = some (g a) := by rw [hq, Option.map_some]
      rw [firstFrom_skip hpq hskip, firstFrom_of_some hqn hhere, Option.map_some]

theorem firstFrom_congr {g : Nat → Option α} (h : ∀ i, p ≤ i → i ≤ n → f i = g i) :
    firstFrom f p n = firstFrom g p n := by
  cases hfirst : firstFrom f p n with
  | none =>
      refine (firstFrom_eq_none_iff.2 ?_).symm
      intro i hp hn
      rw [← h i hp hn]
      exact firstFrom_eq_none_iff.1 hfirst i hp hn
  | some a =>
      obtain ⟨q, hpq, hqn, hq, hnone⟩ := firstFrom_eq_some hfirst
      have hskip : ∀ i, p ≤ i → i < q → g i = none := fun i hi hlt => by
        rw [← h i hi (by omega)]
        exact hnone i hi hlt
      rw [firstFrom_skip hpq hskip, firstFrom_of_some hqn ((h q hpq hqn).symm.trans hq)]

/-- Where some position has an answer, the first answer comes from there or from before. -/
theorem exists_firstFrom {a : α} (hpq : p ≤ q) (hqn : q ≤ n) (h : f q = some a) :
    ∃ i b, firstFrom f p n = some b ∧ i ≤ q ∧ f i = some b := by
  cases hfirst : firstFrom f p n with
  | none =>
      rw [firstFrom_eq_none_iff.1 hfirst q hpq hqn] at h
      exact absurd h (Option.some_ne_none a).symm
  | some b =>
      obtain ⟨i, hpi, -, hi, hnone⟩ := firstFrom_eq_some hfirst
      refine ⟨i, b, rfl, Nat.le_of_not_lt ?_, hi⟩
      intro hlt
      rw [hnone q hpq hlt] at h
      exact absurd h (Option.some_ne_none a).symm

end FirstFrom

/-! ## Lawful matchers -/

variable {text : Array Char}

/-- A search of a lawful matcher answers the match at the least start. -/
theorem Matcher.Lawful.find?_eq_firstFrom {r : Matcher} (h : r.Lawful) (p : Nat) :
    r.find? text p = firstFrom (fun q => (r.endAt? text q).map (Extent.mk q)) p text.size := by
  cases hfind : r.find? text p with
  | none =>
      refine (firstFrom_eq_none_iff.2 ?_).symm
      intro q hq _
      rw [h.missed hfind q hq, Option.map_none]
  | some m =>
      obtain ⟨hend, hbefore⟩ := h.found hfind
      obtain ⟨hle, hstop, hsize⟩ := r.bounds hfind
      have hskip : ∀ q, p ≤ q → q < m.start → (r.endAt? text q).map (Extent.mk q) = none := by
        intro q hq hlt
        rw [hbefore q hq hlt, Option.map_none]
      rw [firstFrom_skip hle hskip]
      refine (firstFrom_of_some (Nat.le_trans hstop hsize) ?_).symm
      rw [hend, Option.map_some]

/-- An expression is found at the least position where it matches. -/
theorem Regex.find?_eq_firstFrom (r : Regex) (p : Nat) :
    r.find? text p = firstFrom (fun q => (r.endAt? text q).map (Extent.mk q)) p text.size :=
  find?_eq_findSome? r p

/-- **The matcher of a regular expression is lawful.** -/
theorem Regex.lawful_matcher (r : Regex) : r.matcher.Lawful := by
  constructor
  · intro text p m hm
    rw [find?_matcher, find?_eq_firstFrom] at hm
    obtain ⟨q, hpq, hq, hend, hbefore⟩ := firstFrom_eq_some hm
    obtain ⟨stop, hstop, rfl⟩ := Option.map_eq_some_iff.1 hend
    refine ⟨(endAt?_matcher hq).trans hstop, ?_⟩
    intro i hi hlt
    rw [endAt?_matcher (Nat.le_trans (Nat.le_of_lt hlt) hq)]
    exact Option.map_eq_none_iff.1 (hbefore i hi hlt)
  · intro text p hm q hq
    rw [find?_matcher, find?_eq_firstFrom, firstFrom_eq_none_iff] at hm
    rcases Nat.lt_or_ge text.size q with hlt | hle
    · exact endAt?_matcher_past hlt
    · rw [endAt?_matcher hle]
      exact Option.map_eq_none_iff.1 (hm q hq hle)

end Highlighter
