import Highlighter.Proofs.WordSession
import Mathlib.Data.Nat.Dist

/-! # Nearest partners — what matching a bracket finds, and what it reads

    The partner of a bracket is said from where the cursor is: away from the bracket, on its
    side, the same-class brackets up to the partner are balanced (`NearestPartner`).  Both
    sides read alike, as what is balanced is so read backwards too, and a limit only
    rules out what is too far away (`matchingBracket?_nearest`).

    The scan reads one extent, which lies in the text (`scanned_inside`).  In words it counts
    the first bracket too; so a bracket that is closed always was counted before, and no
    difference on the way goes below zero (`noDifference_matchingBracket?`). -/

namespace Highlighter

variable {κ : Type} [DecidableEq κ]

/-! ## Differences in words -/

namespace Word

variable {α β : Type} {doc : Document} {classAt : Nat → κ} {bracket other : Char} {kind : κ}

/-- A computation in which no difference goes below zero. -/
def NoDifference (m : Checked α) : Prop := ∀ a b, m ≠ .error (.difference a b)

theorem noDifference_ok (x : α) : NoDifference (.ok x) := nofun

/-- An addition takes no difference. -/
theorem noDifference_add (a b : Nat) : NoDifference (add a b) := by
  intro p q h
  rw [add] at h
  split at h
  · cases h
  · cases h

/-- Where neither of two steps takes a difference below zero, both together do not. -/
theorem NoDifference.bind {m : Checked α} {f : α → Checked β} (hm : NoDifference m)
    (hf : ∀ x, m = .ok x → NoDifference (f x)) : NoDifference (m >>= f) := by
  cases m with
  | error e =>
      intro a b h
      cases h
      exact hm a b rfl
  | ok x => exact hf x rfl

/-- Where no item takes a difference below zero, all of them together do not. -/
theorem NoDifference.mapM {f : α → Checked β} {l : List α} (h : ∀ x, NoDifference (f x)) :
    NoDifference (l.mapM f) := by
  induction l with
  | nil => exact noDifference_ok []
  | cons x rest ih =>
      rw [List.mapM_cons]
      exact (h x).bind fun _ _ => ih.bind fun _ _ => noDifference_ok _

/-- With the first bracket counted, one is open whenever one is closed. -/
theorem noDifference_scanPartner (depth : Nat) (chars : List (Nat × Char)) :
    NoDifference (scanPartner classAt bracket other kind (depth + 1) chars) := by
  induction chars generalizing depth with
  | nil => exact noDifference_ok none
  | cons x rest ih =>
      obtain ⟨o, c⟩ := x
      rw [scanPartner]
      by_cases hskip : (c ≠ bracket ∧ c ≠ other) ∨ classAt o ≠ kind
      · rw [if_pos hskip]
        exact ih depth
      · rw [if_neg hskip]
        by_cases hopens : c = bracket
        · rw [if_pos hopens]
          refine (noDifference_add _ _).bind ?_
          intro n hn
          obtain rfl : depth + 2 = n := by
            rw [add] at hn
            split at hn
            · exact Except.ok.inj hn
            · cases hn
          exact ih (depth + 1)
        · -- one is open, the first if no other, so there is one to close
          rw [if_neg hopens, sub_eq_ok (Nat.le_add_left 1 depth), ok_bind, Nat.add_sub_cancel]
          cases depth with
          | zero => exact noDifference_ok (some o)
          | succ depth => exact ih depth

/-- **Matching a bracket takes no difference below zero**, in a text of any length. -/
theorem noDifference_matchingBracket? (doc : Document) (pos : Nat) (limit : Option Nat)
    (classAt : Nat → κ) : NoDifference (matchingBracket? doc pos limit classAt) := by
  cases pos with
  | zero => exact noDifference_ok none
  | succ origin =>
      rw [matchingBracket?]
      cases hbracket : doc.charAt? origin with
      | none => exact noDifference_ok none
      | some bracket =>
          have horigin : origin < doc.length := doc.lt_length_of_charAt? hbracket
          dsimp only
          cases partner? bracket with
          | none => exact noDifference_ok none
          | some partner =>
              obtain ⟨other, forward⟩ := partner
              dsimp only
              cases forward with
              | true =>
                  rw [if_pos rfl]
                  refine (NoDifference.mapM ?_).bind fun chars _ =>
                    noDifference_scanPartner 0 chars
                  intro x
                  exact (noDifference_add _ _).bind fun _ _ => noDifference_ok _
              | false =>
                  rw [if_neg Bool.false_ne_true, charsBehind_eq (Nat.le_of_lt horigin), ok_bind]
                  exact noDifference_scanPartner 0 _

end Word

/-! ## What is read -/

namespace Bracket

variable {doc : Document} {classAt : Nat → κ} {origin m : Nat} {limit : Option Nat}
  {bracket other : Char} {ahead : Bool}

/-- The extent that is scanned for the partner of a bracket. -/
def scanned (doc : Document) (limit : Option Nat) (origin : Nat) : (ahead : Bool) → Extent
  | true => ⟨origin + 1, min doc.length (origin + 1 + limit.getD doc.length)⟩
  | false => ⟨origin - limit.getD origin, origin⟩

/-- Chars in the order in which they are met on the way from a bracket. -/
def away (chars : List (Nat × Char)) : (ahead : Bool) → List (Nat × Char)
  | true => chars
  | false => chars.reverse

/-- The extent that is scanned lies inside the text. -/
theorem scanned_inside (h : origin < doc.length) (limit : Option Nat) (ahead : Bool) :
    (scanned doc limit origin ahead).start ≤ (scanned doc limit origin ahead).stop ∧
      (scanned doc limit origin ahead).stop ≤ doc.length := by
  cases ahead with
  | true =>
      show origin + 1 ≤ min doc.length (origin + 1 + limit.getD doc.length) ∧
        min doc.length (origin + 1 + limit.getD doc.length) ≤ doc.length
      omega
  | false => exact ⟨Nat.sub_le _ _, Nat.le_of_lt h⟩

/-- The partner is what the scan away from the bracket finds. -/
theorem matchingBracket?_eq_scan (hbracket : doc.charAt? origin = some bracket)
    (hpartner : partner? bracket = some (other, ahead)) (limit : Option Nat) (classAt : Nat → κ) :
    matchingBracket? doc (origin + 1) limit classAt =
      scanPartner classAt bracket other (classAt origin) 0
        (away (charsOf doc (scanned doc limit origin ahead)) ahead) := by
  rw [matchingBracket?, hbracket]
  simp only [Option.bind_eq_bind, Option.bind_some, hpartner]
  cases ahead with
  | true => rfl
  | false => rfl

/-! ## What is found -/

/-- Read away from the bracket at `origin`, its partner stands at `m` in the same class, and between
    them the brackets of the pair in this class are balanced. -/
structure ClosedBy (doc : Document) (classAt : Nat → κ) (bracket other : Char)
    (between : List (Nat × Char)) (origin m : Nat) : Prop where
  here     : doc.charAt? origin = some bracket
  there    : doc.charAt? m = some other
  class_eq : classAt m = classAt origin
  balanced : Balanced (weight classAt (classAt origin) bracket other) between

/-- The bracket at `origin` has its partner at `m`: ahead of it if it opens, behind it if it
    closes. -/
def NearestPartner (doc : Document) (classAt : Nat → κ) (origin m : Nat) : Prop :=
  ∃ opening closing, (opening, closing) ∈ bracketPairs ∧
    ((origin < m ∧
        ClosedBy doc classAt opening closing (charsOf doc ⟨origin + 1, m⟩) origin m) ∨
      (m < origin ∧
        ClosedBy doc classAt closing opening (charsOf doc ⟨m + 1, origin⟩).reverse origin m))

/-- Partners enclose what is balanced, from whichever side it is read. -/
theorem nearestPartner_iff : NearestPartner doc classAt origin m ↔
    ∃ opening closing, Partners doc classAt opening closing origin m ∨
      Partners doc classAt opening closing m origin := by
  constructor
  · rintro ⟨opening, closing, hpair, ⟨hlt, h⟩ | ⟨hlt, h⟩⟩
    · exact ⟨opening, closing, .inl ⟨hpair, hlt, h.here, h.there, h.class_eq, h.balanced⟩⟩
    · -- what lies between was read backwards, and closing brackets counted as opening ones
      have hbalanced := h.balanced.reverse (weight_swap (ne_of_mem_bracketPairs hpair).symm)
      rw [List.reverse_reverse, ← h.class_eq] at hbalanced
      exact ⟨opening, closing,
        .inr ⟨hpair, hlt, h.there, h.here, h.class_eq.symm, hbalanced⟩⟩
  · rintro ⟨opening, closing, h | h⟩
    · exact ⟨opening, closing, h.pair, .inl ⟨h.lt, h.opens, h.closes, h.class_eq, h.balanced⟩⟩
    · have hbalanced := h.balanced.reverse (weight_swap (ne_of_mem_bracketPairs h.pair))
      rw [← h.class_eq] at hbalanced
      exact ⟨opening, closing, h.pair,
        .inr ⟨h.lt, h.closes, h.opens, h.class_eq.symm, hbalanced⟩⟩

/-- A bracket is matched with its nearest partner, unless that is further away than the limit. -/
theorem matchingBracket?_eq_some_iff_nearest {pos : Nat} :
    matchingBracket? doc pos limit classAt = some m ↔
      ∃ origin, pos = origin + 1 ∧ NearestPartner doc classAt origin m ∧
        Allows limit (Nat.dist m origin) := by
  rw [matchingBracket?_eq_some_iff]
  constructor
  · rintro ⟨origin, opening, closing, rfl, ⟨h, hlimit⟩ | ⟨h, hlimit⟩⟩
    · refine ⟨origin, rfl, nearestPartner_iff.2 ⟨opening, closing, .inl h⟩, ?_⟩
      rwa [Nat.dist_eq_sub_of_le_right (Nat.le_of_lt h.lt)]
    · refine ⟨origin, rfl, nearestPartner_iff.2 ⟨opening, closing, .inr h⟩, ?_⟩
      rwa [Nat.dist_eq_sub_of_le (Nat.le_of_lt h.lt)]
  · rintro ⟨origin, rfl, hnearest, hlimit⟩
    obtain ⟨opening, closing, h | h⟩ := nearestPartner_iff.1 hnearest
    · rw [Nat.dist_eq_sub_of_le_right (Nat.le_of_lt h.lt)] at hlimit
      exact ⟨origin, opening, closing, rfl, .inl ⟨h, hlimit⟩⟩
    · rw [Nat.dist_eq_sub_of_le (Nat.le_of_lt h.lt)] at hlimit
      exact ⟨origin, opening, closing, rfl, .inr ⟨h, hlimit⟩⟩

/-- A limit takes away what is found beyond it. -/
theorem matchingBracket?_limit (doc : Document) (pos l : Nat) (classAt : Nat → κ) :
    matchingBracket? doc pos (some l) classAt =
      (matchingBracket? doc pos none classAt).filter fun m => Nat.dist m (pos - 1) ≤ l := by
  apply Option.ext
  intro m
  rw [Option.filter_eq_some_iff, matchingBracket?_eq_some_iff_nearest,
    matchingBracket?_eq_some_iff_nearest, decide_eq_true_iff]
  constructor
  · rintro ⟨origin, rfl, hnearest, hlimit⟩
    exact ⟨⟨origin, rfl, hnearest, nofun⟩, hlimit l rfl⟩
  · rintro ⟨⟨origin, rfl, hnearest, -⟩, hle⟩
    refine ⟨origin, rfl, hnearest, ?_⟩
    intro l' hl
    obtain rfl := Option.some.inj hl
    exact hle

end Bracket

open Highlighter.Bracket

/-- **A bracket is matched with its nearest balanced partner.**  What is found is the bracket before
    the cursor closed: on its side, in its class, with balanced brackets between, and no further
    away than the limit.  So a limit only takes away what is beyond it.  The scan reads an extent
    of the text, asks for classes inside the text only, and never counts below zero. -/
theorem matchingBracket?_nearest (doc : Document) (pos : Nat) (limit : Option Nat)
    (classAt : Nat → κ) :
    (∀ m, matchingBracket? doc pos limit classAt = some m ↔
      ∃ origin, pos = origin + 1 ∧ NearestPartner doc classAt origin m ∧
        ∀ l, limit = some l → Nat.dist m origin ≤ l) ∧
    (∀ l, matchingBracket? doc pos (some l) classAt =
      (matchingBracket? doc pos none classAt).filter fun m => Nat.dist m (pos - 1) ≤ l) ∧
    (∀ origin bracket other ahead, pos = origin + 1 → doc.charAt? origin = some bracket →
      partner? bracket = some (other, ahead) →
        (scanned doc limit origin ahead).start ≤ (scanned doc limit origin ahead).stop ∧
        (scanned doc limit origin ahead).stop ≤ doc.length ∧
        matchingBracket? doc pos limit classAt =
          scanPartner classAt bracket other (classAt origin) 0
            (away (charsOf doc (scanned doc limit origin ahead)) ahead)) ∧
    (∀ classAt' : Nat → κ, (∀ o < doc.length, classAt' o = classAt o) →
      matchingBracket? doc pos limit classAt' = matchingBracket? doc pos limit classAt) ∧
    ∀ a b, Word.matchingBracket? doc pos limit classAt ≠ .error (.difference a b) := by
  refine ⟨fun m => matchingBracket?_eq_some_iff_nearest,
    fun l => matchingBracket?_limit doc pos l classAt, ?_, ?_,
    Word.noDifference_matchingBracket? doc pos limit classAt⟩
  · rintro origin bracket other ahead rfl hbracket hpartner
    have horigin : origin < doc.length := doc.lt_length_of_charAt? hbracket
    obtain ⟨hle, hstop⟩ := scanned_inside horigin limit ahead
    exact ⟨hle, hstop, matchingBracket?_eq_scan hbracket hpartner limit classAt⟩
  · intro classAt' hsame
    refine matchingBracket?_congr fun o o' ho ho' _ _ => ?_
    rw [hsame o ho, hsame o' ho']

end Highlighter
