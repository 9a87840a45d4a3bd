import Highlighter.Proofs.OffsetSets
import Highlighter.Proofs.Spans
import Highlighter.Staleness

/-! # Stale offsets — what the dirty set promises

    The dirty set may hold more than what is stale, never less.  It stays inside the text
    (`Upto`), and an edit moves it along; what an edit adds lies in the edited text
    (`Carried`).  Refreshing a range runs the renderer over its dirty parts; what each pass
    preserves holds at the end (`refresh_keeps`), and then nothing of the range is dirty
    (`refresh_clean`). -/

namespace Highlighter

namespace ExtentSet

variable {s : ExtentSet} {e : Extent} {x n : Nat}

/-! ## Parts of a set -/

/-- A part of a set inside an extent has chars, and lies in both. -/
theorem part_of_mem_within {part : Extent} (h : part ∈ s.within e) :
    part.start < part.stop ∧ e.start ≤ part.start ∧ part.stop ≤ e.stop ∧
      ∃ f ∈ s.extents, part.stop ≤ f.stop := by
  obtain ⟨hlt, f, hf, rfl⟩ := exists_of_mem_within h
  exact ⟨hlt, Nat.le_max_right _ _, Nat.min_le_right _ _, f, hf, Nat.min_le_left _ _⟩

/-- A set that does not overlap an extent has none of its offsets. -/
theorem Canonical.not_mem_of_not_overlaps (hs : s.Canonical) (h : s.overlaps e = false)
    (he : x ∈ e) : x ∉ s := by
  intro hx
  have hover := hs.overlaps_iff.2 ⟨x, hx, he⟩
  rw [h] at hover
  exact Bool.false_ne_true hover

/-! ## Sets inside a text -/

/-- A set in its stored form, of offsets before `n`. -/
structure Upto (s : ExtentSet) (n : Nat) : Prop where
  canonical : s.Canonical
  lt        : ∀ x ∈ s, x < n

theorem upto_empty (n : Nat) : Upto ∅ n := ⟨canonical_empty, fun _ hx => absurd hx not_mem_empty⟩

theorem Upto.stop_le (h : s.Upto n) (he : e ∈ s.extents) : e.stop ≤ n := by
  have hfull := h.canonical.full e he
  have := h.lt (e.stop - 1) ⟨e, he, by omega, by omega⟩
  omega

/-- Insertion of offsets before `n` keeps a set before it. -/
theorem Upto.insert (h : s.Upto n) (he : e.stop ≤ n) : (s.insert e).Upto n := by
  refine ⟨h.canonical.insert e, ?_⟩
  intro x hx
  rcases h.canonical.mem_insert_iff.1 hx with hx | hx
  · exact h.lt x hx
  · exact Nat.lt_of_lt_of_le hx.2 he

theorem Upto.erase (h : s.Upto n) : (s.erase e).Upto n :=
  ⟨h.canonical.erase e, fun x hx => h.lt x (mem_erase.1 hx).1⟩

/-! ## Sets under edits -/

/-- A set that an edit has moved: what was before the edit or behind it still is there, and what is
    new lies in the edited text, which takes a set that holds something. -/
structure Carried (s s' : ExtentSet) (e : Edit) : Prop where
  before : ∀ x ∈ s, x < e.pos → x ∈ s'
  behind : ∀ x ∈ s, e.oldStop ≤ x → shift x e.delta ∈ s'
  source : ∀ x ∈ s', (x ∈ s ∧ x < e.pos) ∨ (e.pos ≤ x ∧ x < e.newStop ∧ ∃ y, y ∈ s) ∨
    ∃ y ∈ s, e.oldStop ≤ y ∧ shift y e.delta = x
  upto   : ∀ n, e.oldStop ≤ n → s.Upto n → s'.Upto (shift n e.delta)

/-- A set follows an insertion. -/
theorem carried_afterInsert (s : ExtentSet) (pos count : Nat) :
    s.Carried (s.afterInsert pos count) (.insertion pos count) := by
  have hshift := Edit.shift_insertion pos count
  have hold := Edit.insertion_oldStop pos count
  have hnew := Edit.insertion_newStop pos count
  have hpos : (Edit.insertion pos count).pos = pos := rfl
  refine ⟨?_, ?_, ?_, ?_⟩
  · intro x hx hlt
    exact mem_afterInsert_iff.2 (by rwa [if_pos (show x < pos from hlt)])
  · intro x hx hle
    rw [hold] at hle
    rw [hshift, mem_afterInsert_iff, if_neg (by omega), if_neg (by omega), Nat.add_sub_cancel]
    exact hx
  -- what was put in counts when it stands inside an extent
  · intro x hx
    rw [hold, hnew, hpos]
    rw [mem_afterInsert_iff] at hx
    split at hx
    · exact .inl ⟨hx, by assumption⟩
    · split at hx
      · obtain ⟨f, hf, h1, h2⟩ := hx
        exact .inr (.inl ⟨by omega, by assumption, f.start, f, hf, Nat.le_refl _, by omega⟩)
      · refine .inr (.inr ⟨x - count, hx, by omega, ?_⟩)
        rw [hshift]
        omega
  · intro n hn hs
    rw [hold] at hn
    refine ⟨hs.canonical.afterInsert pos count, ?_⟩
    intro x hx
    rw [mem_afterInsert_iff] at hx
    rw [hshift]
    split at hx
    · omega
    · split at hx
      · omega
      · have := hs.lt _ hx
        omega

theorem carried_afterDelete (s : ExtentSet) {start stop : Nat} (h : start < stop) :
    s.Carried (s.afterDelete start stop) (.deletion start stop) := by
  have hold := Edit.deletion_oldStop (Nat.le_of_lt h)
  have hshift := Edit.shift_deletion start stop
  refine ⟨?_, ?_, ?_, ?_⟩
  · intro x hx hlt
    exact mem_afterDelete.2 (by rwa [if_pos (show x < start from hlt)])
  · intro x hx hle
    rw [hold] at hle
    rw [hshift, mem_afterDelete, if_neg (by omega), Nat.sub_add_cancel (by omega)]
    exact hx
  · intro x hx
    rw [hold]
    rw [mem_afterDelete] at hx
    split at hx
    · exact .inl ⟨hx, by assumption⟩
    · refine .inr (.inr ⟨x + (stop - start), hx, by omega, ?_⟩)
      rw [hshift, Nat.add_sub_cancel]
  · intro n hn hs
    rw [hold] at hn
    refine ⟨hs.canonical.afterDelete start stop, ?_⟩
    intro x hx
    rw [mem_afterDelete] at hx
    rw [hshift]
    split at hx
    · omega
    · have := hs.lt _ hx
      omega

end ExtentSet

/-! ## Refreshing -/

namespace Staleness

variable {σ : Type} {render : σ → Extent → σ × Extent} {motive : ExtentSet → σ → Prop}
  {e : Extent}

/-- One pass over a part that has something dirty: it preserves what rendering preserves. -/
theorem refreshPart_keeps {acc : Staleness × σ × Nat} {part : Extent}
    (hrender : ∀ d s, motive d s →
      motive ((d.erase part).erase (render s part).2) (render s part).1)
    (h : motive acc.1.dirty acc.2.1) :
    motive (refreshPart render acc part).1.dirty (refreshPart render acc part).2.1 := by
  obtain ⟨t, s, count⟩ := acc
  rw [refreshPart]
  by_cases hover : t.dirty.overlaps part = true
  · simp only [hover, if_true]
    exact hrender t.dirty s h
  · simp only [hover, Bool.false_eq_true, if_false]
    exact h

/-- One pass leaves nothing dirty in its part, and touches nothing that is requested. -/
theorem refreshPart_clean {acc : Staleness × σ × Nat} (h : acc.1.dirty.Canonical)
    (part : Extent) :
    (refreshPart render acc part).1.dirty.Canonical ∧
      (∀ x ∈ (refreshPart render acc part).1.dirty, x ∈ acc.1.dirty ∧ x ∉ part) ∧
      (refreshPart render acc part).1.requested = acc.1.requested := by
  obtain ⟨t, s, count⟩ := acc
  rw [refreshPart]
  by_cases hover : t.dirty.overlaps part = true
  · simp only [hover, if_true]
    refine ⟨(h.erase _).erase _, ?_, trivial⟩
    intro x hx
    obtain ⟨hx, -⟩ := ExtentSet.mem_erase.1 hx
    exact ExtentSet.mem_erase.1 hx
  · simp only [hover, Bool.false_eq_true, if_false]
    refine ⟨h, fun x hx => ⟨hx, ?_⟩, trivial⟩
    intro hin
    exact h.not_mem_of_not_overlaps (Bool.eq_false_iff.2 hover) hin hx

/-- **Refreshing** preserves what rendering one part preserves. -/
theorem refresh_keeps {t : Staleness} {s : σ} {n : Nat}
    (hupto : ∀ f ∈ t.dirty.extents, f.stop ≤ n)
    (hrender : ∀ part d s, part.start < part.stop → e.start ≤ part.start → part.stop ≤ e.stop →
      part.stop ≤ n → motive d s →
        motive ((d.erase part).erase (render s part).2) (render s part).1)
    (h : motive t.dirty s) :
    motive (t.refresh e render s).1.dirty (t.refresh e render s).2.1 := by
  refine List.foldlRecOn (motive := fun acc : Staleness × σ × Nat => motive acc.1.dirty acc.2.1)
    (t.dirty.within e) (refreshPart render) h fun acc hacc part hpart => ?_
  obtain ⟨hlt, hstart, hstop, f, hf, hle⟩ := ExtentSet.part_of_mem_within hpart
  have hinside := Nat.le_trans hle (hupto f hf)
  exact refreshPart_keeps (fun d s hd => hrender part d s hlt hstart hstop hinside hd) hacc

/-- Passes one after the other leave nothing dirty in any of their parts. -/
theorem foldl_refreshPart_clean (parts : List Extent) {acc : Staleness × σ × Nat}
    (h : acc.1.dirty.Canonical) :
    (∀ x ∈ (parts.foldl (refreshPart render) acc).1.dirty,
        x ∈ acc.1.dirty ∧ ∀ part ∈ parts, x ∉ part) ∧
      (parts.foldl (refreshPart render) acc).1.requested = acc.1.requested := by
  induction parts generalizing acc with
  | nil => exact ⟨fun x hx => ⟨hx, by simp⟩, rfl⟩
  | cons part rest ih =>
      obtain ⟨hcanonical, hclean, hrequested⟩ := @refreshPart_clean σ render acc h part
      obtain ⟨hdirty, hrequested'⟩ := ih hcanonical
      refine ⟨?_, hrequested'.trans hrequested⟩
      intro x hx
      obtain ⟨hx, hout⟩ := hdirty x hx
      obtain ⟨hx, hpart⟩ := hclean x hx
      exact ⟨hx, List.forall_mem_cons.2 ⟨hpart, hout⟩⟩

/-- **Refreshing** leaves nothing dirty in its range, makes nothing dirty, and touches nothing that
    is requested. -/
theorem refresh_clean {t : Staleness} (h : t.dirty.Canonical) (s : σ) :
    (∀ x ∈ (t.refresh e render s).1.dirty, x ∈ t.dirty ∧ x ∉ e) ∧
      (t.refresh e render s).1.requested = t.requested := by
  obtain ⟨hdirty, hrequested⟩ :=
    @foldl_refreshPart_clean σ render (t.dirty.within e) (t, s, 0) h
  refine ⟨?_, hrequested⟩
  intro x hx
  obtain ⟨hin, hout⟩ := hdirty x hx
  refine ⟨hin, ?_⟩
  intro he
  obtain ⟨part, hpart, hxpart⟩ := h.exists_part hin he
  exact hout part hpart hxpart

end Staleness

end Highlighter
