import Highlighter.Extent.Set
import Mathlib.Data.Set.Basic

/-! # Offset sets — what the stored extents stand for

    A set of offsets is stored as extents that are sorted, non-empty and never touch
    (`Canonical`).  In this form both ends ascend along the list, so a search that stops at
    the first extent past a place finds all that lie before it (`takeWhile_eq_filter`), and
    a set of offsets has one form only (`Canonical.eq_of_mem_iff`).

    Every operation keeps the form, and each has a law on offsets: inserting is union
    (`Canonical.mem_insert_iff`), erasing is difference (`mem_erase`), an edit moves offsets
    (`mem_afterInsert`, `mem_afterDelete`).  A run of operations does to the stored extents
    what these laws do to the offsets (`run_refines`). -/

namespace Highlighter

/-! ## Searching an ordered list -/

section Search

variable {α β : Type} {p q : α → Bool} {l : List α}

/-- A search along a list finds all that it looks for, when what it looks for comes first. -/
theorem takeWhile_eq_filter (h : l.Pairwise fun a b => p b = true → p a = true) :
    l.takeWhile p = l.filter p := by
  induction l with
  | nil => rfl
  | cons a rest ih =>
      obtain ⟨hfirst, hrest⟩ := List.pairwise_cons.1 h
      rw [List.takeWhile_cons, List.filter_cons]
      by_cases hp : p a = true
      · rw [if_pos hp, if_pos hp, ih hrest]
      · rw [if_neg hp, if_neg hp, eq_comm, List.filter_eq_nil_iff]
        intro b hb hpb
        exact hp (hfirst b hb hpb)

/-- In a sorted list what is dropped in front is what a filter drops. -/
theorem dropWhile_eq_filter (h : l.Pairwise fun a b => p b = true → p a = true) :
    l.dropWhile p = l.filter fun a => !p a := by
  induction l with
  | nil => rfl
  | cons a rest ih =>
      obtain ⟨hfirst, hrest⟩ := List.pairwise_cons.1 h
      rw [List.dropWhile_cons, List.filter_cons]
      by_cases hp : p a = true
      · rw [if_pos hp, if_neg (by simp [hp]), ih hrest]
      · rw [if_neg hp, if_pos (by simp [hp]), eq_comm]
        refine congrArg (a :: ·) (List.filter_eq_self.2 ?_)
        intro b hb
        rw [Bool.not_eq_true']
        exact Bool.eq_false_iff.2 fun hpb => hp (hfirst b hb hpb)

/-- Between what a search skips and where it ends lies all that shows, if nothing else does. -/
theorem searched_eq {f : α → β} {shows : β → Bool}
    (hp : l.Pairwise fun a b => p b = true → p a = true)
    (hq : l.Pairwise fun a b => q b = true → q a = true)
    (h : ∀ a ∈ l, shows (f a) = true → p a = false ∧ q a = true) :
    (((l.dropWhile p).takeWhile q).map f).filter shows = (l.map f).filter shows := by
  rw [takeWhile_eq_filter (hq.sublist (List.dropWhile_sublist p)), dropWhile_eq_filter hp,
    List.filter_filter, List.filter_map, List.filter_map, List.filter_filter]
  refine congrArg (List.map f) (List.filter_congr ?_)
  intro a ha
  by_cases hshows : shows (f a) = true
  · obtain ⟨hpa, hqa⟩ := h a ha hshows
    simp [hshows, hpa, hqa]
  · simp [hshows]

end Search

/-! ## One extent -/

namespace Extent

variable {e f : Extent} {x pos count start stop : Nat}

/-- The offsets of an extent. -/
def offsets (e : Extent) : Set Nat := {x | x ∈ e}

/-- A reversed extent holds nothing. -/
theorem not_mem_of_isEmpty (h : e.isEmpty = true) : x ∉ e := by
  have hle : e.stop ≤ e.start := of_decide_eq_true h
  rintro ⟨h1, h2⟩
  omega

theorem mem_hull_left (h : x ∈ e) : x ∈ e.hull f :=
  ⟨Nat.le_trans (Nat.min_le_left _ _) h.1, Nat.lt_of_lt_of_le h.2 (Nat.le_max_left _ _)⟩

theorem mem_hull_right (h : x ∈ f) : x ∈ e.hull f :=
  ⟨Nat.le_trans (Nat.min_le_right _ _) h.1, Nat.lt_of_lt_of_le h.2 (Nat.le_max_right _ _)⟩

/-- The hull of extents that touch holds nothing else. -/
theorem mem_hull_iff (htouch : f.start ≤ e.stop ∧ e.start ≤ f.stop) :
    x ∈ e.hull f ↔ x ∈ e ∨ x ∈ f := by
  constructor
  · rintro ⟨h1, h2⟩
    have h1 : min e.start f.start ≤ x := h1
    have h2 : x < max e.stop f.stop := h2
    by_cases hin : e.start ≤ x ∧ x < e.stop
    · exact .inl hin
    · refine .inr ⟨?_, ?_⟩ <;> omega
  · rintro (h | h)
    · exact mem_hull_left h
    · exact mem_hull_right h

theorem mem_foldl_hull {l : List Extent} (h : x ∈ e ∨ ∃ f ∈ l, x ∈ f) :
    x ∈ l.foldl hull e := by
  induction l generalizing e with
  | nil =>
      rcases h with h | ⟨f, hf, -⟩
      · exact h
      · exact absurd hf List.not_mem_nil
  | cons f rest ih =>
      refine ih ?_
      rcases h with h | ⟨g, hg, h⟩
      · exact .inl (mem_hull_left h)
      · rcases List.mem_cons.1 hg with rfl | hg
        · exact .inl (mem_hull_right h)
        · exact .inr ⟨g, hg, h⟩

/-- The hull of extents that all touch the first one has their offsets. -/
theorem mem_foldl_hull_iff {l : List Extent}
    (htouch : ∀ f ∈ l, f.start ≤ e.stop ∧ e.start ≤ f.stop) :
    x ∈ l.foldl hull e ↔ x ∈ e ∨ ∃ f ∈ l, x ∈ f := by
  induction l generalizing e with
  | nil => simp
  | cons f rest ih =>
      -- what touches an extent touches its hulls
      have hrest : ∀ g ∈ rest, g.start ≤ (e.hull f).stop ∧ (e.hull f).start ≤ g.stop := by
        intro g hg
        obtain ⟨h1, h2⟩ := htouch g (List.mem_cons_of_mem f hg)
        exact ⟨Nat.le_trans h1 (Nat.le_max_left _ _), Nat.le_trans (Nat.min_le_left _ _) h2⟩
      rw [List.foldl_cons, ih hrest, mem_hull_iff (htouch f List.mem_cons_self)]
      simp [or_assoc]

/-- What holds of extents and of the hull of any two that it holds of, holds of their hull. -/
theorem forall_foldl_hull {P : Extent → Prop} (hhull : ∀ f g, P f → P g → P (f.hull g))
    {l : List Extent} (he : P e) (hl : ∀ f ∈ l, P f) : P (l.foldl hull e) :=
  List.foldlRecOn l hull he fun g hg f hf => hhull g f hg (hl f hf)

/-- The pieces around a hole: the extent itself when they do not meet, else what sticks out before
    the hole and what sticks out behind it. -/
theorem piece_iff {f hole : Extent} : f ∈ e.minus hole ↔
    ((e.stop ≤ hole.start ∨ hole.stop ≤ e.start) ∧ f = e) ∨
      (hole.start < e.stop ∧ e.start < hole.stop) ∧
        (e.start < hole.start ∧ f = ⟨e.start, hole.start⟩ ∨
          hole.stop < e.stop ∧ f = ⟨hole.stop, e.stop⟩) := by
  rw [minus]
  by_cases hapart : e.stop ≤ hole.start ∨ hole.stop ≤ e.start
  · have hmeet : ¬(hole.start < e.stop ∧ e.start < hole.stop) := by omega
    simp [hapart, hmeet]
  · have hmeet : hole.start < e.stop ∧ e.start < hole.stop := by omega
    by_cases hleft : e.start < hole.start <;> by_cases hright : hole.stop < e.stop <;>
      simp [hapart, hmeet, hleft, hright]

/-- Cutting a hole out leaves the offsets outside it. -/
theorem mem_minus {hole : Extent} :
    (∃ f ∈ e.minus hole, x ∈ f) ↔ x ∈ e ∧ x ∉ hole := by
  have hnot : x ∉ hole ↔ x < hole.start ∨ hole.stop ≤ x := by
    show ¬(hole.start ≤ x ∧ x < hole.stop) ↔ _
    omega
  rw [hnot]
  constructor
  · rintro ⟨f, hf, hx⟩
    have h1 : f.start ≤ x := hx.1
    have h2 : x < f.stop := hx.2
    rcases piece_iff.1 hf with ⟨hapart, rfl⟩ | ⟨hmeet, ⟨-, rfl⟩ | ⟨-, rfl⟩⟩
    · exact ⟨hx, by omega⟩
    · exact ⟨⟨h1, Nat.lt_trans h2 hmeet.1⟩, .inl h2⟩
    · exact ⟨⟨Nat.le_trans (Nat.le_of_lt hmeet.2) h1, h2⟩, .inr h1⟩
  -- outside the hole is before it or behind it
  · rintro ⟨hx, houtside⟩
    have h1 : e.start ≤ x := hx.1
    have h2 : x < e.stop := hx.2
    by_cases hapart : e.stop ≤ hole.start ∨ hole.stop ≤ e.start
    · exact ⟨e, piece_iff.2 (.inl ⟨hapart, rfl⟩), hx⟩
    · have hmeet : hole.start < e.stop ∧ e.start < hole.stop := by omega
      rcases houtside with hbefore | hbehind
      · have hleft : e.start < hole.start := Nat.lt_of_le_of_lt h1 hbefore
        exact ⟨⟨e.start, hole.start⟩, piece_iff.2 (.inr ⟨hmeet, .inl ⟨hleft, rfl⟩⟩), h1, hbefore⟩
      · have hright : hole.stop < e.stop := Nat.lt_of_le_of_lt hbehind h2
        exact ⟨⟨hole.stop, e.stop⟩, piece_iff.2 (.inr ⟨hmeet, .inr ⟨hright, rfl⟩⟩), hbehind, h2⟩

/-- The pieces outside a hole are full parts of the extent, with the hole between them. -/
theorem minus_spec {hole : Extent} (hhole : hole.start < hole.stop) :
    (∀ f ∈ e.minus hole, e.start ≤ f.start ∧ f.stop ≤ e.stop ∧
      (e.start < e.stop → f.start < f.stop)) ∧
    (e.minus hole).Pairwise fun f g => f.stop < g.start := by
  constructor
  · intro f hf
    rcases piece_iff.1 hf with ⟨-, rfl⟩ | ⟨hmeet, ⟨hleft, rfl⟩ | ⟨hright, rfl⟩⟩
    · exact ⟨Nat.le_refl _, Nat.le_refl _, id⟩
    · exact ⟨Nat.le_refl _, Nat.le_of_lt hmeet.1, fun _ => hleft⟩
    · exact ⟨Nat.le_of_lt hmeet.2, Nat.le_refl _, fun _ => hright⟩
  · rw [minus]
    split
    · exact List.pairwise_singleton _ _
    · by_cases hleft : e.start < hole.start <;> by_cases hright : hole.stop < e.stop <;>
        simp [hleft, hright, hhole]

/-- A clipped extent has the offsets that are in the window too. -/
theorem mem_clip {window : Extent} : x ∈ e.clip window ↔ x ∈ e ∧ x ∈ window := by
  show max e.start window.start ≤ x ∧ x < min e.stop window.stop ↔
    (e.start ≤ x ∧ x < e.stop) ∧ window.start ≤ x ∧ x < window.stop
  omega

/-- Each end that lies behind the place moves along. -/
theorem afterInsert_ends (e : Extent) (he : e.start < e.stop) (pos count : Nat) :
    (e.afterInsert pos count).start = (if pos ≤ e.start then e.start + count else e.start) ∧
      (e.afterInsert pos count).stop = if pos < e.stop then e.stop + count else e.stop := by
  rw [afterInsert]
  by_cases hbehind : pos ≤ e.start
  · have hover : pos < e.stop := by omega
    simp [hbehind, hover]
  · by_cases hover : pos < e.stop
    · simp [hbehind, hover]
    · simp [hbehind, hover]

/-- Once chars stand at `pos`, an extent holds what it held, moved along behind them; it holds
    them too when they stand strictly inside it. -/
theorem mem_afterInsert : x ∈ e.afterInsert pos count ↔
    if x < pos then x ∈ e
    else if x < pos + count then e.start < pos ∧ pos < e.stop
    else x - count ∈ e := by
  obtain ⟨a, b⟩ := e
  rw [afterInsert]
  show (x ∈ if pos ≤ a then (⟨a + count, b + count⟩ : Extent)
    else if pos < b then ⟨a, b + count⟩ else ⟨a, b⟩) ↔
      if x < pos then a ≤ x ∧ x < b
      else if x < pos + count then a < pos ∧ pos < b
      else a ≤ x - count ∧ x - count < b
  by_cases hbehind : pos ≤ a
  · rw [if_pos hbehind]
    show a + count ≤ x ∧ x < b + count ↔ _
    split
    · omega
    · split <;> omega
  · by_cases hover : pos < b
    · rw [if_neg hbehind, if_pos hover]
      show a ≤ x ∧ x < b + count ↔ _
      split
      · omega
      · split <;> omega
    · rw [if_neg hbehind, if_neg hover]
      show a ≤ x ∧ x < b ↔ _
      split
      · exact Iff.rfl
      · split <;> omega

/-- Where a deletion leaves an offset is told by where the offset was. -/
theorem offsetAfterDelete_le_iff {o : Nat} (h : start < stop) :
    offsetAfterDelete start stop o ≤ x ↔ if x < start then o ≤ x else o ≤ x + (stop - start) := by
  rw [offsetAfterDelete]
  by_cases hbefore : o ≤ start
  · rw [if_pos hbefore]
    split <;> omega
  · rw [if_neg hbefore]
    by_cases hbehind : stop ≤ o
    · rw [if_pos hbehind]
      split <;> omega
    · rw [if_neg hbehind]
      split <;> omega

/-- Once chars are gone, an extent holds what it held outside them. -/
theorem mem_afterDelete (h : start < stop) : x ∈ e.afterDelete start stop ↔
    if x < start then x ∈ e else x + (stop - start) ∈ e := by
  show offsetAfterDelete start stop e.start ≤ x ∧ x < offsetAfterDelete start stop e.stop ↔
    if x < start then e.start ≤ x ∧ x < e.stop
    else e.start ≤ x + (stop - start) ∧ x + (stop - start) < e.stop
  rw [← Nat.not_le, offsetAfterDelete_le_iff h, offsetAfterDelete_le_iff h]
  split <;> omega

/-- Deleting what was just inserted brings an extent back. -/
theorem afterDelete_afterInsert (he : e.start < e.stop) (hcount : 0 < count) :
    (e.afterInsert pos count).afterDelete pos (pos + count) = e := by
  have hback : ∀ o, pos ≤ o → offsetAfterDelete pos (pos + count) (o + count) = o := by
    intro o ho
    rw [offsetAfterDelete, if_neg (by omega), if_pos (by omega)]
    omega
  have hkept : ∀ o, o ≤ pos → offsetAfterDelete pos (pos + count) o = o := by
    intro o ho
    rw [offsetAfterDelete, if_pos ho]
  obtain ⟨a, b⟩ := e
  have he : a < b := he
  rw [afterInsert, afterDelete]
  by_cases hbehind : pos ≤ a
  · simp only [hbehind, if_true, hback a hbehind, hback b (by omega)]
  · by_cases hover : pos < b
    · simp only [hbehind, hover, if_true, if_false, hkept a (by omega), hback b (by omega)]
    · simp only [hbehind, hover, if_false, hkept a (by omega), hkept b (by omega)]

end Extent

namespace ExtentSet

variable {s t : ExtentSet} {e f : Extent} {x pos count start stop : Nat}

/-! ## The stored form -/

/-- The extents of a set are sorted, hold something, and do not touch. -/
structure Canonical (s : ExtentSet) : Prop where
  full  : ∀ e ∈ s.extents, e.start < e.stop
  apart : s.extents.Pairwise fun e f => e.stop < f.start

theorem canonical_empty : Canonical ∅ := ⟨by simp [EmptyCollection.emptyCollection, empty], .nil⟩

theorem not_mem_empty : x ∉ (∅ : ExtentSet) := by
  rintro ⟨e, he, -⟩
  exact absurd he List.not_mem_nil

/-- An offset is in the first extent or in one of the others. -/
theorem mem_mk_cons {l : List Extent} :
    x ∈ (⟨e :: l⟩ : ExtentSet) ↔ x ∈ e ∨ x ∈ (⟨l⟩ : ExtentSet) := by
  show (∃ f ∈ e :: l, x ∈ f) ↔ x ∈ e ∨ ∃ f ∈ l, x ∈ f
  simp

namespace Canonical

/-- Both ends ascend. -/
theorem ascends (h : s.Canonical) :
    s.extents.Pairwise fun e f => e.start < f.start ∧ e.stop < f.stop := by
  refine h.apart.imp_of_mem ?_
  intro e f he hf hlt
  have := h.full e he
  have := h.full f hf
  omega

/-- Searches for the extents before a place find all of them. -/
theorem searchable (h : s.Canonical) (n : Nat) :
    (s.extents.Pairwise fun e f => decide (f.stop < n) = true → decide (e.stop < n) = true) ∧
    (s.extents.Pairwise fun e f => decide (f.stop ≤ n) = true → decide (e.stop ≤ n) = true) ∧
    (s.extents.Pairwise fun e f => decide (f.start < n) = true → decide (e.start < n) = true) ∧
    (s.extents.Pairwise fun e f => decide (f.start ≤ n) = true → decide (e.start ≤ n) = true) := by
  refine ⟨h.ascends.imp ?_, h.ascends.imp ?_, h.ascends.imp ?_, h.ascends.imp ?_⟩ <;>
    (intro e f hlt; simp only [decide_eq_true_iff]; omega)

/-- Two extents of a set are the same or apart. -/
theorem eq_or_apart (h : s.Canonical) (he : e ∈ s.extents) (hf : f ∈ s.extents) :
    e = f ∨ e.stop < f.start ∨ f.stop < e.start := by
  refine List.Pairwise.forall_of_forall_of_flip
    (R := fun e f : Extent => e = f ∨ e.stop < f.start ∨ f.stop < e.start)
    (fun _ _ => .inl rfl) ?_ ?_ he hf
  · exact h.apart.imp fun hlt => .inr (.inl hlt)
  · exact h.apart.imp fun hlt => .inr (.inr hlt)

theorem tail {l : List Extent} (h : Canonical ⟨e :: l⟩) : Canonical ⟨l⟩ :=
  ⟨fun f hf => h.full f (List.mem_cons_of_mem e hf), (List.pairwise_cons.1 h.apart).2⟩

/-- Behind the first extent there is a gap. -/
theorem lt_of_mem_tail {l : List Extent} (h : Canonical ⟨e :: l⟩) (hx : x ∈ (⟨l⟩ : ExtentSet)) :
    e.stop < x := by
  obtain ⟨f, hf, hx⟩ := hx
  have hlt := (List.pairwise_cons.1 h.apart).1 f hf
  exact Nat.lt_of_lt_of_le hlt hx.1

/-- The first extent is told by the offsets: it starts at the least of them, and stops at the
    first gap. -/
theorem first_le {l m : List Extent} (he : Canonical ⟨e :: l⟩) (hf : Canonical ⟨f :: m⟩)
    (h : ∀ x, x ∈ (⟨e :: l⟩ : ExtentSet) ↔ x ∈ (⟨f :: m⟩ : ExtentSet)) :
    f.start ≤ e.start ∧ (e.start = f.start → e.stop ≤ f.stop) := by
  have hfull : e.start < e.stop := he.full e List.mem_cons_self
  have hfull' : f.start < f.stop := hf.full f List.mem_cons_self
  constructor
  · rcases mem_mk_cons.1 ((h e.start).1 (mem_mk_cons.2 (.inl ⟨Nat.le_refl _, hfull⟩))) with hx | hx
    · exact hx.1
    · have := hf.lt_of_mem_tail hx
      omega
  · intro hsame
    -- where the second set has its gap, the first would still hold something
    refine Nat.not_lt.1 ?_
    intro hlt
    have hin : f.stop ∈ e := ⟨by omega, hlt⟩
    rcases mem_mk_cons.1 ((h f.stop).1 (mem_mk_cons.2 (.inl hin))) with hx | hx
    · exact Nat.lt_irrefl _ hx.2
    · exact Nat.lt_irrefl _ (hf.lt_of_mem_tail hx)

/-- Behind a first extent that they share, one set has what the other has. -/
theorem mem_of_same_first {e : Extent} {l m : List Extent} (hs : Canonical ⟨e :: l⟩)
    (h : ∀ x, x ∈ (⟨e :: l⟩ : ExtentSet) → x ∈ (⟨e :: m⟩ : ExtentSet)) {x : Nat}
    (hx : x ∈ (⟨l⟩ : ExtentSet)) : x ∈ (⟨m⟩ : ExtentSet) := by
  refine (mem_mk_cons.1 (h x (mem_mk_cons.2 (.inr hx)))).resolve_left ?_
  intro hin
  have := hs.lt_of_mem_tail hx
  have := hin.2
  omega

/-- **A set of offsets has one form.** -/
theorem eq_of_mem_iff (hs : s.Canonical) (ht : t.Canonical) (h : ∀ x, x ∈ s ↔ x ∈ t) : s = t := by
  obtain ⟨l⟩ := s
  obtain ⟨m⟩ := t
  refine congrArg ExtentSet.mk ?_
  have hstart : ∀ {e : Extent} {l : List Extent}, Canonical ⟨e :: l⟩ →
      e.start ∈ (⟨e :: l⟩ : ExtentSet) := fun he =>
    mem_mk_cons.2 (.inl ⟨Nat.le_refl _, he.full _ List.mem_cons_self⟩)
  induction l generalizing m with
  | nil =>
      cases m with
      | nil => rfl
      | cons f m => exact absurd ((h f.start).2 (hstart ht)) not_mem_empty
  | cons e l ih =>
      cases m with
      | nil => exact absurd ((h e.start).1 (hstart hs)) not_mem_empty
      | cons f m =>
          obtain ⟨hle, hstop⟩ := hs.first_le ht h
          obtain ⟨hle', hstop'⟩ := ht.first_le hs fun x => (h x).symm
          have hsame : e.start = f.start := Nat.le_antisymm hle' hle
          obtain rfl : e = f := by
            obtain ⟨a, b⟩ := e
            obtain ⟨a', b'⟩ := f
            obtain rfl : a = a' := hsame
            obtain rfl : b = b' := Nat.le_antisymm (hstop rfl) (hstop' rfl)
            rfl
          refine congrArg (e :: ·) (ih hs.tail m ht.tail ?_)
          intro x
          exact ⟨hs.mem_of_same_first fun x => (h x).1, ht.mem_of_same_first fun x => (h x).2⟩

end Canonical

/-! ## Inserting -/

/-- Inserting loses nothing. -/
theorem mem_insert (h : x ∈ s ∨ x ∈ e) : x ∈ s.insert e := by
  rw [insert]
  by_cases hempty : e.isEmpty = true
  · rw [if_pos hempty]
    exact h.resolve_right (Extent.not_mem_of_isEmpty hempty)
  · rw [if_neg hempty]
    have hsplit : s.extents.takeWhile (fun r => r.stop < e.start) ++
        ((s.extents.dropWhile fun r => r.stop < e.start).takeWhile (fun r => r.start ≤ e.stop) ++
          (s.extents.dropWhile fun r => r.stop < e.start).dropWhile fun r => r.start ≤ e.stop) =
        s.extents := by
      rw [List.takeWhile_append_dropWhile, List.takeWhile_append_dropWhile]
    rcases h with ⟨f, hf, hx⟩ | hx
    · rw [← hsplit] at hf
      rcases List.mem_append.1 hf with hf | hf
      · exact ⟨f, List.mem_append_left _ hf, hx⟩
      · rcases List.mem_append.1 hf with hf | hf
        · exact ⟨_, List.mem_append_right _ List.mem_cons_self,
            Extent.mem_foldl_hull (.inr ⟨f, hf, hx⟩)⟩
        · exact ⟨f, List.mem_append_right _ (List.mem_cons_of_mem _ hf), hx⟩
    · exact ⟨_, List.mem_append_right _ List.mem_cons_self, Extent.mem_foldl_hull (.inl hx)⟩

/-- All that inserting does: what touches the new extent becomes one with it, and the rest stays,
    before it or behind it. -/
theorem Canonical.insert_cases (hs : s.Canonical) (he : e.start < e.stop) :
    ∃ before touching after, s.extents = before ++ (touching ++ after) ∧
      (s.insert e).extents = before ++ touching.foldl Extent.hull e :: after ∧
      (∀ f ∈ before, f.stop < e.start) ∧
      (∀ f ∈ touching, f.start ≤ e.stop ∧ e.start ≤ f.stop) ∧
      (∀ f ∈ after, e.stop < f.start) := by
  obtain ⟨hstops, -, -, -⟩ := hs.searchable e.start
  obtain ⟨-, -, -, hstarts⟩ := hs.searchable e.stop
  have hrest := hstarts.sublist (List.dropWhile_sublist fun r : Extent => decide (r.stop < e.start))
  refine ⟨s.extents.takeWhile fun r => r.stop < e.start,
    (s.extents.dropWhile fun r => r.stop < e.start).takeWhile fun r => r.start ≤ e.stop,
    (s.extents.dropWhile fun r => r.stop < e.start).dropWhile fun r => r.start ≤ e.stop,
    ?_, ?_, ?_, ?_, ?_⟩
  · rw [List.takeWhile_append_dropWhile, List.takeWhile_append_dropWhile]
  · rw [insert, if_neg (by simpa [Extent.isEmpty] using he)]
  · intro f hf
    rw [takeWhile_eq_filter hstops] at hf
    simpa using (List.mem_filter.1 hf).2
  · intro f hf
    rw [takeWhile_eq_filter hrest, dropWhile_eq_filter hstops] at hf
    simp only [List.mem_filter, Bool.not_eq_true', decide_eq_true_iff, decide_eq_false_iff_not,
      Nat.not_lt] at hf
    exact ⟨hf.2, hf.1.2⟩
  · intro f hf
    rw [dropWhile_eq_filter hrest] at hf
    simpa using (List.mem_filter.1 hf).2

/-- **Inserting is union.** -/
theorem Canonical.mem_insert_iff (hs : s.Canonical) : x ∈ s.insert e ↔ x ∈ s ∨ x ∈ e := by
  by_cases he : e.start < e.stop
  · refine ⟨?_, mem_insert⟩
    obtain ⟨before, touching, after, hsplit, hinsert, -, htouch, -⟩ := hs.insert_cases he
    have hold : ∀ f, f ∈ before ∨ f ∈ touching ∨ f ∈ after → x ∈ f → x ∈ s := by
      intro f hf hx
      refine ⟨f, ?_, hx⟩
      rw [hsplit]
      simpa using hf
    rintro ⟨f, hf, hx⟩
    rw [hinsert] at hf
    rcases List.mem_append.1 hf with hf | hf
    · exact .inl (hold f (.inl hf) hx)
    · rcases List.mem_cons.1 hf with rfl | hf
      · rcases (Extent.mem_foldl_hull_iff htouch).1 hx with hx | ⟨g, hg, hx⟩
        · exact .inr hx
        · exact .inl (hold g (.inr (.inl hg)) hx)
      · exact .inl (hold f (.inr (.inr hf)) hx)
  · have hempty : e.isEmpty = true := decide_eq_true (Nat.not_lt.1 he)
    rw [insert, if_pos hempty]
    exact ⟨.inl, fun h => h.resolve_right (Extent.not_mem_of_isEmpty hempty)⟩

theorem Canonical.insert (hs : s.Canonical) (e : Extent) : (s.insert e).Canonical := by
  by_cases he : e.start < e.stop
  · obtain ⟨before, touching, after, hsplit, hinsert, hbefore, -, hafter⟩ := hs.insert_cases he
    have hfull := hs.full
    have hapart := hs.apart
    rw [hsplit] at hfull hapart
    obtain ⟨hbb, hta, hcross⟩ := List.pairwise_append.1 hapart
    obtain ⟨-, haa, hcross'⟩ := List.pairwise_append.1 hta
    constructor
    · intro f hf
      rw [hinsert] at hf
      rcases List.mem_append.1 hf with hf | hf
      · exact hfull f (List.mem_append_left _ hf)
      · rcases List.mem_cons.1 hf with rfl | hf
        · refine Extent.forall_foldl_hull (P := fun f => f.start < f.stop) ?_ he ?_
          · intro f g hf _
            exact Nat.lt_of_le_of_lt (Nat.min_le_left _ _)
              (Nat.lt_of_lt_of_le hf (Nat.le_max_left _ _))
          · intro f hf
            exact hfull f (List.mem_append_right _ (List.mem_append_left _ hf))
        · exact hfull f (List.mem_append_right _ (List.mem_append_right _ hf))
    · rw [hinsert]
      refine List.pairwise_append.2 ⟨hbb, List.pairwise_cons.2 ⟨?_, haa⟩, ?_⟩
      · intro f hf
        -- what is behind the new extent is behind all that it touches, so behind their hull
        refine Extent.forall_foldl_hull (P := fun g => g.stop < f.start) ?_ (hafter f hf) ?_
        · intro g g' hg hg'
          exact Nat.max_lt.2 ⟨hg, hg'⟩
        · intro g hg
          exact hcross' g hg f hf
      · intro f hf g hg
        rcases List.mem_cons.1 hg with rfl | hg
        · refine Extent.forall_foldl_hull (P := fun g => f.stop < g.start) ?_ (hbefore f hf) ?_
          · intro g g' hg hg'
            exact Nat.lt_min.2 ⟨hg, hg'⟩
          · intro g hg
            exact hcross f hf g (List.mem_append_left _ hg)
        · exact hcross f hf g (List.mem_append_right _ hg)
  · have hempty : e.isEmpty = true := decide_eq_true (Nat.not_lt.1 he)
    rw [ExtentSet.insert, if_pos hempty]
    exact hs

/-! ## Erasing -/

/-- **Erasing is difference.** -/
theorem mem_erase : x ∈ s.erase e ↔ x ∈ s ∧ x ∉ e := by
  rw [erase]
  by_cases hempty : e.isEmpty = true
  · rw [if_pos hempty]
    exact ⟨fun h => ⟨h, Extent.not_mem_of_isEmpty hempty⟩, And.left⟩
  · rw [if_neg hempty]
    constructor
    · rintro ⟨f, hf, hx⟩
      obtain ⟨r, hr, hf⟩ := List.mem_flatMap.1 hf
      obtain ⟨hin, hout⟩ := Extent.mem_minus.1 ⟨f, hf, hx⟩
      exact ⟨⟨r, hr, hin⟩, hout⟩
    · rintro ⟨⟨r, hr, hin⟩, hout⟩
      obtain ⟨f, hf, hx⟩ := Extent.mem_minus.2 ⟨hin, hout⟩
      exact ⟨f, List.mem_flatMap.2 ⟨r, hr, hf⟩, hx⟩

/-- What erasing leaves are parts of extents of the set. -/
theorem exists_of_mem_erase (h : f ∈ (s.erase e).extents) :
    ∃ r ∈ s.extents, r.start ≤ f.start ∧ f.stop ≤ r.stop ∧ (r.start < r.stop → f.start < f.stop) := by
  rw [erase] at h
  by_cases hempty : e.isEmpty = true
  · rw [if_pos hempty] at h
    exact ⟨f, h, Nat.le_refl _, Nat.le_refl _, id⟩
  · have hfull : e.start < e.stop := by simpa [Extent.isEmpty] using hempty
    rw [if_neg hempty] at h
    obtain ⟨r, hr, hf⟩ := List.mem_flatMap.1 h
    exact ⟨r, hr, (Extent.minus_spec hfull).1 f hf⟩

theorem Canonical.erase (hs : s.Canonical) (e : Extent) : (s.erase e).Canonical := by
  refine ⟨?_, ?_⟩
  · intro f hf
    obtain ⟨r, hr, -, -, hfull⟩ := exists_of_mem_erase hf
    exact hfull (hs.full r hr)
  · rw [ExtentSet.erase]
    by_cases hempty : e.isEmpty = true
    · rw [if_pos hempty]
      exact hs.apart
    · have hfull : e.start < e.stop := by simpa [Extent.isEmpty] using hempty
      rw [if_neg hempty]
      refine List.pairwise_flatMap.2 ⟨fun r _ => (Extent.minus_spec hfull).2, hs.apart.imp ?_⟩
      intro r r' hlt f hf f' hf'
      obtain ⟨-, hf, -⟩ := (Extent.minus_spec hfull).1 f hf
      obtain ⟨hf', -, -⟩ := (Extent.minus_spec hfull).1 f' hf'
      omega

/-! ## Parts of a set -/

/-- What a window shows are parts of stored extents, none empty. -/
theorem exists_of_mem_within (h : f ∈ s.within e) :
    f.start < f.stop ∧ ∃ r ∈ s.extents, f = r.clip e := by
  obtain ⟨hmem, hfull⟩ := List.mem_filter.1 h
  obtain ⟨r, hr, rfl⟩ := List.mem_map.1 hmem
  refine ⟨by simpa [Extent.isEmpty] using hfull, r, ?_, rfl⟩
  exact (List.dropWhile_sublist _).subset ((List.takeWhile_sublist _).subset hr)

/-- The search passes over nothing that has a part inside the extent. -/
theorem Canonical.within_eq (hs : s.Canonical) (e : Extent) :
    s.within e = (s.extents.map (·.clip e)).filter fun r => !r.isEmpty := by
  obtain ⟨-, hstops, -, -⟩ := hs.searchable e.start
  obtain ⟨-, -, hstarts, -⟩ := hs.searchable e.stop
  refine searched_eq hstops hstarts ?_
  intro r _ hshows
  have hlt : (r.clip e).start < (r.clip e).stop := by simpa [Extent.isEmpty] using hshows
  have hlt : max r.start e.start < min r.stop e.stop := hlt
  simp only [decide_eq_false_iff_not, decide_eq_true_iff]
  omega

/-- The parts inside an extent hold every offset of the set that lies there. -/
theorem Canonical.exists_part (hs : s.Canonical) (hx : x ∈ s) (he : x ∈ e) :
    ∃ part ∈ s.within e, x ∈ part := by
  obtain ⟨f, hf, hx⟩ := hx
  have hin : x ∈ f.clip e := Extent.mem_clip.2 ⟨hx, he⟩
  refine ⟨f.clip e, ?_, hin⟩
  rw [hs.within_eq, List.mem_filter]
  have hlt : (f.clip e).start < (f.clip e).stop := Nat.lt_of_le_of_lt hin.1 hin.2
  exact ⟨List.mem_map_of_mem hf, by simpa [Extent.isEmpty] using hlt⟩

/-- A set with no offset in an extent has no part inside it. -/
theorem within_eq_nil (h : ∀ x ∈ s, x ∉ e) : s.within e = [] := by
  refine List.eq_nil_iff_forall_not_mem.2 ?_
  intro part hpart
  -- the first offset of a part would be such an offset
  obtain ⟨hlt, f, hf, rfl⟩ := exists_of_mem_within hpart
  have hfirst : (f.clip e).start ∈ f.clip e := ⟨Nat.le_refl _, hlt⟩
  obtain ⟨hin, he⟩ := Extent.mem_clip.1 hfirst
  exact h _ ⟨f, hf, hin⟩ he

/-- **The parts inside an extent are an intersection**, in the stored form. -/
theorem Canonical.within (hs : s.Canonical) (e : Extent) :
    Canonical ⟨s.within e⟩ ∧ ∀ x, x ∈ (⟨s.within e⟩ : ExtentSet) ↔ x ∈ s ∧ x ∈ e := by
  refine ⟨⟨fun f hf => (exists_of_mem_within hf).1, ?_⟩, ?_⟩
  · rw [hs.within_eq]
    refine (List.pairwise_map.2 (hs.apart.imp ?_)).sublist List.filter_sublist
    intro f g hlt
    exact Nat.lt_of_le_of_lt (Nat.min_le_left _ _) (Nat.lt_of_lt_of_le hlt (Nat.le_max_left _ _))
  · intro x
    constructor
    · rintro ⟨f, hf, hx⟩
      obtain ⟨-, r, hr, rfl⟩ := exists_of_mem_within hf
      obtain ⟨hin, he⟩ := Extent.mem_clip.1 hx
      exact ⟨⟨r, hr, hin⟩, he⟩
    · rintro ⟨hx, he⟩
      exact hs.exists_part hx he

/-- A set overlaps an extent when they have an offset in common. -/
theorem Canonical.overlaps_iff (hs : s.Canonical) :
    s.overlaps e = true ↔ ∃ x, x ∈ s ∧ x ∈ e := by
  obtain ⟨hcanonical, hmem⟩ := hs.within e
  have hnot : s.overlaps e = true ↔ s.within e ≠ [] := by simp [overlaps]
  rw [hnot]
  constructor
  · intro hne
    obtain ⟨f, hf⟩ := List.exists_mem_of_ne_nil _ hne
    exact ⟨f.start, (hmem f.start).1 ⟨f, hf, Nat.le_refl _, hcanonical.full f hf⟩⟩
  · rintro ⟨x, hx, he⟩
    obtain ⟨part, hpart, -⟩ := hs.exists_part hx he
    exact List.ne_nil_of_mem hpart

/-! ## Edits -/

/-- A set after an insertion, by the extents that held the place. -/
theorem mem_afterInsert_iff : x ∈ s.afterInsert pos count ↔
    if x < pos then x ∈ s
    else if x < pos + count then ∃ f ∈ s.extents, f.start < pos ∧ pos < f.stop
    else x - count ∈ s := by
  have hmoved : x ∈ s.afterInsert pos count ↔ ∃ f ∈ s.extents, x ∈ f.afterInsert pos count := by
    show (∃ f ∈ s.extents.map (·.afterInsert pos count), x ∈ f) ↔ _
    simp
  rw [hmoved]
  simp only [Extent.mem_afterInsert]
  split
  · exact Iff.rfl
  · split
    · exact Iff.rfl
    · exact Iff.rfl

/-- An extent lies around a place exactly when the set holds the offsets on both sides of it: if two
    extents held one each, they would touch. -/
theorem Canonical.around_iff (hs : s.Canonical) :
    (∃ f ∈ s.extents, f.start < pos ∧ pos < f.stop) ↔ 0 < pos ∧ pos - 1 ∈ s ∧ pos ∈ s := by
  constructor
  · rintro ⟨f, hf, h1, h2⟩
    exact ⟨by omega, ⟨f, hf, by omega, by omega⟩, ⟨f, hf, by omega, h2⟩⟩
  · rintro ⟨hpos, ⟨f, hf, h1, h2⟩, g, hg, h3, h4⟩
    rcases hs.eq_or_apart hf hg with rfl | hlt | hlt
    · exact ⟨f, hf, by omega, h4⟩
    · omega
    · omega

/-- **An insertion** moves offsets behind it, and is in the set when both its neighbours are. -/
theorem Canonical.mem_afterInsert (hs : s.Canonical) : x ∈ s.afterInsert pos count ↔
    if x < pos then x ∈ s
    else if x < pos + count then 0 < pos ∧ pos - 1 ∈ s ∧ pos ∈ s
    else x - count ∈ s := by
  rw [mem_afterInsert_iff, hs.around_iff]

/-- Following an insertion keeps the stored form. -/
theorem Canonical.afterInsert (hs : s.Canonical) (pos count : Nat) :
    (s.afterInsert pos count).Canonical := by
  constructor
  · intro f hf
    obtain ⟨e, he, rfl⟩ := List.mem_map.1 hf
    obtain ⟨hstart, hstop⟩ := e.afterInsert_ends (hs.full e he) pos count
    have := hs.full e he
    rw [hstart, hstop]
    split <;> split <;> omega
  · refine List.pairwise_map.2 (hs.apart.imp_of_mem ?_)
    intro e f he hf hlt
    obtain ⟨-, hstop⟩ := e.afterInsert_ends (hs.full e he) pos count
    obtain ⟨hstart, -⟩ := f.afterInsert_ends (hs.full f hf) pos count
    rw [hstart, hstop]
    split <;> split <;> omega

/-- Inserting extents one after the other. -/
theorem Canonical.foldl_insert {g : Extent → Extent} {l : List Extent} (ht : t.Canonical) :
    (l.foldl (fun t r => t.insert (g r)) t).Canonical ∧
      ∀ x, x ∈ l.foldl (fun t r => t.insert (g r)) t ↔ x ∈ t ∨ ∃ r ∈ l, x ∈ g r := by
  induction l generalizing t with
  | nil => exact ⟨ht, by simp⟩
  | cons r rest ih =>
      obtain ⟨hcanonical, hmem⟩ := ih (ht.insert (g r))
      refine ⟨hcanonical, ?_⟩
      intro x
      rw [List.foldl_cons, hmem, ht.mem_insert_iff]
      simp [or_assoc]

/-- **A deletion** leaves the offsets outside it, moved along. -/
theorem mem_afterDelete : x ∈ s.afterDelete start stop ↔
    if x < start then x ∈ s else x + (stop - start) ∈ s := by
  rw [afterDelete]
  by_cases hnone : stop ≤ start
  · rw [if_pos hnone, Nat.sub_eq_zero_of_le hnone]
    simp
  · rw [if_neg hnone]
    have hmem := (canonical_empty.foldl_insert (g := fun e => e.afterDelete start stop)
      (l := s.extents)).2 x
    refine hmem.trans ?_
    have hnot : ¬x ∈ (∅ : ExtentSet) := not_mem_empty
    simp only [hnot, false_or, Extent.mem_afterDelete (Nat.not_le.1 hnone)]
    split
    · exact Iff.rfl
    · exact Iff.rfl

theorem Canonical.afterDelete (hs : s.Canonical) (start stop : Nat) :
    (s.afterDelete start stop).Canonical := by
  rw [ExtentSet.afterDelete]
  split
  · exact hs
  · exact canonical_empty.foldl_insert.1

/-- **Deleting what was just inserted** brings a set back. -/
theorem Canonical.afterDelete_afterInsert (hs : s.Canonical) (pos count : Nat) :
    (s.afterInsert pos count).afterDelete pos (pos + count) = s := by
  refine ((hs.afterInsert pos count).afterDelete _ _).eq_of_mem_iff hs ?_
  intro x
  rw [mem_afterDelete, Nat.add_sub_cancel_left]
  split
  · rename_i hlt
    rw [mem_afterInsert_iff, if_pos hlt]
  · rename_i hge
    rw [mem_afterInsert_iff, if_neg (by omega), if_neg (by omega), Nat.add_sub_cancel]

/-! ## Runs of operations -/

/-- An operation on a set of offsets. -/
inductive Op where
  | insert (e : Extent)
  | erase (e : Extent)
  | afterInsert (pos count : Nat)
  | afterDelete (start stop : Nat)
  | clear

/-- A stored set after an operation. -/
def Op.apply (s : ExtentSet) : Op → ExtentSet
  | .insert e => s.insert e
  | .erase e => s.erase e
  | .afterInsert pos count => s.afterInsert pos count
  | .afterDelete start stop => s.afterDelete start stop
  | .clear => ∅

/-- What is stored after some operations on an empty set. -/
def run (ops : List Op) : ExtentSet := ops.foldl Op.apply ∅

/-- The offsets of a set. -/
def offsets (s : ExtentSet) : Set Nat := {x | x ∈ s}

/-- What an operation means for the offsets.  An insertion is in the set when both its neighbours
    are, and a deletion leaves the offsets outside it. -/
def Op.onOffsets (P : Set Nat) : Op → Set Nat
  | .insert e => P ∪ e.offsets
  | .erase e => P \ e.offsets
  | .afterInsert pos count =>
    {x | x < pos ∧ x ∈ P} ∪ {x | pos ≤ x ∧ x < pos + count ∧ 0 < pos ∧ pos - 1 ∈ P ∧ pos ∈ P} ∪
      {x | pos + count ≤ x ∧ x - count ∈ P}
  | .afterDelete start stop =>
    {x | x < start ∧ x ∈ P} ∪ {x | start ≤ x ∧ x + (stop - start) ∈ P}
  | .clear => ∅

/-- **One operation** keeps the stored form, and does to the offsets what it means. -/
theorem Canonical.op (hs : s.Canonical) (o : Op) :
    (o.apply s).Canonical ∧ (o.apply s).offsets = o.onOffsets s.offsets := by
  cases o with
  | insert e =>
      refine ⟨hs.insert e, ?_⟩
      ext x
      exact hs.mem_insert_iff
  | erase e =>
      refine ⟨hs.erase e, ?_⟩
      ext x
      exact mem_erase
  | afterInsert pos count =>
      refine ⟨hs.afterInsert pos count, ?_⟩
      ext x
      show x ∈ s.afterInsert pos count ↔
        (x < pos ∧ x ∈ s ∨ pos ≤ x ∧ x < pos + count ∧ 0 < pos ∧ pos - 1 ∈ s ∧ pos ∈ s) ∨
          pos + count ≤ x ∧ x - count ∈ s
      rw [hs.mem_afterInsert]
      by_cases hbefore : x < pos
      · have h1 : ¬pos ≤ x := by omega
        have h2 : ¬pos + count ≤ x := by omega
        simp [hbefore, h1, h2]
      · by_cases hin : x < pos + count
        · have h1 : pos ≤ x := by omega
          have h2 : ¬pos + count ≤ x := by omega
          simp [hbefore, hin, h1, h2]
        · have h1 : pos + count ≤ x := by omega
          simp [hbefore, hin, h1]
  | afterDelete start stop =>
      refine ⟨hs.afterDelete start stop, ?_⟩
      ext x
      show x ∈ s.afterDelete start stop ↔
        x < start ∧ x ∈ s ∨ start ≤ x ∧ x + (stop - start) ∈ s
      rw [mem_afterDelete]
      by_cases hbefore : x < start
      · have h1 : ¬start ≤ x := by omega
        simp [hbefore, h1]
      · have h1 : start ≤ x := by omega
        simp [hbefore, h1]
  | clear =>
      refine ⟨canonical_empty, ?_⟩
      ext x
      exact iff_of_false not_mem_empty id

/-- Any operations keep the stored form and do to the offsets what they mean. -/
theorem Canonical.ops (hs : s.Canonical) (ops : List Op) :
    (ops.foldl Op.apply s).Canonical ∧
      (ops.foldl Op.apply s).offsets = ops.foldl Op.onOffsets s.offsets := by
  induction ops generalizing s with
  | nil => exact ⟨hs, rfl⟩
  | cons o rest ih =>
      obtain ⟨hstep, hoffsets⟩ := hs.op o
      obtain ⟨hcanonical, hrest⟩ := ih hstep
      rw [hoffsets] at hrest
      exact ⟨hcanonical, hrest⟩

/-- **Stored extents are a set of offsets.**  After any operations, also with empty and reversed
    extents, they are in the stored form and hold just the offsets that the operations mean, so
    equal sets of offsets are stored alike.  The parts inside an extent are the intersection with
    it, in the stored form, and deleting what was just inserted brings the set back. -/
theorem run_refines (ops : List Op) :
    (run ops).Canonical ∧
    (run ops).offsets = ops.foldl Op.onOffsets ∅ ∧
    (∀ ops' : List Op, (run ops').offsets = (run ops).offsets → run ops' = run ops) ∧
    (∀ e : Extent, Canonical ⟨(run ops).within e⟩ ∧
      offsets ⟨(run ops).within e⟩ = (run ops).offsets ∩ e.offsets ∧
      ((run ops).overlaps e = true ↔ ((run ops).offsets ∩ e.offsets).Nonempty)) ∧
    ∀ pos count : Nat, ((run ops).afterInsert pos count).afterDelete pos (pos + count) = run ops := by
  have hrun : ∀ ops : List Op, (run ops).Canonical := fun ops => (canonical_empty.ops ops).1
  have hempty : offsets ∅ = ∅ := by
    ext x
    exact iff_of_false not_mem_empty id
  refine ⟨hrun ops, ?_, ?_, ?_, ?_⟩
  · rw [← hempty]
    exact (canonical_empty.ops ops).2
  · intro ops' hsame
    exact (hrun ops').eq_of_mem_iff (hrun ops) fun x => Set.ext_iff.1 hsame x
  · intro e
    obtain ⟨hcanonical, hmem⟩ := (hrun ops).within e
    refine ⟨hcanonical, ?_, (hrun ops).overlaps_iff⟩
    ext x
    exact hmem x
  · exact (hrun ops).afterDelete_afterInsert

/-- Extents that touch become one, which an insertion at the seam then stretches. -/
example : run [.insert ⟨4, 6⟩, .insert ⟨2, 4⟩, .afterInsert 4 3] = ⟨[⟨2, 9⟩]⟩ := by decide

end ExtentSet

end Highlighter
