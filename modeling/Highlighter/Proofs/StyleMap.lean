import Highlighter.Proofs.Spans
import Mathlib.Data.List.Find

/-! # Style maps — paint as a style for each offset

    A paint stores spans in order; what it means is a style for each offset, or none
    (`Paint.styleAt?`).  Every operation keeps the order, and what it does to the styles is
    local (`Canonical.op`): replacing changes the styles of its window and no others, and
    an edit moves the style of each char along with the char.  Runs of operations inherit
    both, and asking for a window finds all spans of it (`run_styles`). -/

namespace Highlighter

theorem Span.contains_iff {s : Span} {x : Nat} : s.contains x = true ↔ x ∈ s.extent := by
  show (decide (s.start ≤ x) && decide (x < s.stop)) = true ↔ s.start ≤ x ∧ x < s.stop
  simp

namespace Paint

variable {p : Paint} {spans : List Span} {window : Extent} {x pos count start stop : Nat}

/-! ## The stored form -/

/-- Spans in order, none empty and none over another. -/
structure Canonical (p : Paint) : Prop where
  full  : ∀ s ∈ p.spans, s.start < s.stop
  order : p.spans.Pairwise fun s s' => s.stop ≤ s'.start

theorem canonical_empty : empty.Canonical := ⟨by simp [empty], .nil⟩

/-- Spans that lie in order are canonical. -/
theorem canonical_of_laid {hi : Nat} (h : Laid 0 p.spans hi) : p.Canonical :=
  ⟨h.arranged.full, h.arranged.order⟩

/-- In the stored form the spans are laid, up to an end as far away as one likes. -/
theorem Canonical.exists_laid (hp : p.Canonical) (n : Nat) :
    ∃ hi, n ≤ hi ∧ Laid 0 p.spans hi := by
  obtain ⟨m, hm⟩ := exists_upto Span.stop p.spans
  refine ⟨max n m, Nat.le_max_left n m, ?_⟩
  have harranged : Arranged p.spans ⟨0, max n m⟩ := by
    refine ⟨hp.full, hp.order, fun s hs => ⟨Nat.zero_le _, ?_⟩⟩
    exact Nat.le_trans (hm s hs) (Nat.le_max_right n m)
  exact harranged.laid (Nat.zero_le _)

/-! ## Replacing -/

/-- The style of an offset is what a window of that one char shows. -/
theorem styleAt?_eq (p : Paint) (x : Nat) :
    p.styleAt? x = (clipped p.spans x (x + 1)).head?.map (·.style) := by
  obtain ⟨spans⟩ := p
  show (spans.find? (·.contains x)).map (·.style) = _
  induction spans with
  | nil => rfl
  | cons s rest ih =>
      rw [List.find?_cons, clipped_cons]
      by_cases hin : s.contains x = true
      · obtain ⟨h1, h2⟩ := Span.contains_iff.1 hin
        have h1 : s.start ≤ x := h1
        have h2 : x < s.stop := h2
        have hlt : max s.start x < min s.stop (x + 1) := by omega
        simp [hin, hlt]
      · have hout : ¬max s.start x < min s.stop (x + 1) := by
          intro hlt
          refine hin (Span.contains_iff.2 ⟨?_, ?_⟩)
          · show s.start ≤ x
            omega
          · show x < s.stop
            omega
        simp only [hin, hout, if_false, List.nil_append]
        exact ih

/-- **Replacing** gives the offsets of the window the styles of the new spans, and leaves the styles
    of all others. -/
theorem Canonical.styleAt?_replace (hp : p.Canonical) (hle : window.start ≤ window.stop)
    (hspans : Arranged (spans.filter fun s => !s.isEmpty) window) :
    (p.replace window spans).styleAt? x =
      if x ∈ window then (Paint.mk spans).styleAt? x else p.styleAt? x := by
  obtain ⟨u, v⟩ := window
  have hle : u ≤ v := hle
  have hnew : Laid u (spans.filter fun s => !s.isEmpty) v := hspans.laid hle
  obtain ⟨hi, hx, hlaid⟩ := hp.exists_laid (x + 1)
  have hshown : clipped (p.replace ⟨u, v⟩ spans).spans x (x + 1) =
      clipped p.spans x (min u (x + 1)) ++
        clipped (spans.filter fun s => !s.isEmpty) x (x + 1) ++
          clipped p.spans (max v x) (x + 1) := by
    rw [replace_spans hlaid hle, clipped_append, clipped_append, clipped_clipped, clipped_clipped,
      Nat.zero_max, Nat.min_eq_right hx]
  rw [styleAt?_eq, hshown]
  by_cases hbefore : x < u
  · -- only what lies left of the window shows
    have hout : x ∉ (⟨u, v⟩ : Extent) := fun h => Nat.not_le.2 hbefore h.1
    have hmin : min u (x + 1) = x + 1 := Nat.min_eq_right hbefore
    rw [if_neg hout, styleAt?_eq, hmin, hnew.clipped_apart (.inl hbefore),
      clipped_of_le (by omega : x + 1 ≤ max v x), List.append_nil, List.append_nil]
  · have hleft : min u (x + 1) ≤ x := by omega
    rw [clipped_of_le hleft, List.nil_append]
    by_cases hbehind : v ≤ x
    · -- only what lies right of it
      have hout : x ∉ (⟨u, v⟩ : Extent) := fun h => Nat.not_lt.2 hbehind h.2
      rw [if_neg hout, styleAt?_eq, hnew.clipped_apart (.inr hbehind), List.nil_append,
        Nat.max_eq_right hbehind]
    · -- only the new spans
      have hin : x ∈ (⟨u, v⟩ : Extent) := ⟨Nat.not_lt.1 hbefore, Nat.not_le.1 hbehind⟩
      rw [if_pos hin, styleAt?_eq, clipped_filter, clipped_of_le (by omega : x + 1 ≤ max v x),
        List.append_nil]

/-- To replace a window of spans keeps them canonical. -/
theorem Canonical.replace (hp : p.Canonical) (hle : window.start ≤ window.stop)
    (hspans : Arranged (spans.filter fun s => !s.isEmpty) window) :
    (p.replace window spans).Canonical := by
  obtain ⟨hi, hstop, hlaid⟩ := hp.exists_laid window.stop
  exact canonical_of_laid (laid_replace hlaid hstop (hspans.laid hle))

/-! ## Edits -/

/-- The span that a place lies strictly inside of. -/
def around? (p : Paint) (pos : Nat) : Option Span :=
  p.spans.find? fun s => s.start < pos && pos < s.stop

/-- There is a span around a place when one has it strictly inside. -/
theorem around?_isSome : (p.around? pos).isSome = true ↔
    ∃ s ∈ p.spans, s.start < pos ∧ pos < s.stop := by
  rw [around?, List.find?_isSome]
  simp

/-- The styles of moved spans, by where an offset comes from. -/
theorem styleAt?_moved (l : List Span) (x : Nat) (f : Extent → Extent) (holds : Span → Bool)
    (h : ∀ s : Span, x ∈ f s.extent ↔ holds s = true) :
    (Paint.mk (l.map fun s => s.moved (f s.extent))).styleAt? x =
      (l.find? holds).map (·.style) := by
  show ((l.map fun s => s.moved (f s.extent)).find? (·.contains x)).map (·.style) = _
  have hsame : l.find? ((·.contains x) ∘ fun s => s.moved (f s.extent)) = l.find? holds := by
    refine List.find?_congr fun s _ => ?_
    rw [Bool.eq_iff_iff, ← h s]
    exact Span.contains_iff
  rw [List.find?_map, Option.map_map, hsame]
  rfl

/-- **An insertion** moves styles along with the chars; the new chars take the style of the span that
    they stand strictly inside of. -/
theorem styleAt?_afterInsert (p : Paint) (pos count x : Nat) :
    (p.afterInsert pos count).styleAt? x =
      if x < pos then p.styleAt? x
      else if x < pos + count then (p.around? pos).map (·.style)
      else p.styleAt? (x - count) := by
  have hmoved := styleAt?_moved p.spans x (·.afterInsert pos count)
  by_cases hbefore : x < pos
  · rw [if_pos hbefore]
    refine hmoved (·.contains x) ?_
    intro s
    rw [Extent.mem_afterInsert, if_pos hbefore]
    exact Span.contains_iff.symm
  · rw [if_neg hbefore]
    by_cases hin : x < pos + count
    · rw [if_pos hin]
      refine hmoved (fun s => s.start < pos && pos < s.stop) ?_
      intro s
      rw [Extent.mem_afterInsert, if_neg hbefore, if_pos hin]
      simp [Span.extent]
    · rw [if_neg hin]
      refine hmoved (·.contains (x - count)) ?_
      intro s
      rw [Extent.mem_afterInsert, if_neg hbefore, if_neg hin]
      exact Span.contains_iff.symm

/-- Spans that hold nothing give no styles. -/
theorem styleAt?_filter (l : List Span) (x : Nat) :
    (Paint.mk (l.filter fun s => !s.isEmpty)).styleAt? x = (Paint.mk l).styleAt? x := by
  rw [styleAt?_eq, styleAt?_eq, clipped_filter]

/-- **A deletion** takes the styles of the chars that are gone, and moves those behind along. -/
theorem styleAt?_afterDelete (p : Paint) (start stop x : Nat) :
    (p.afterDelete start stop).styleAt? x =
      if x < start then p.styleAt? x else p.styleAt? (x + (stop - start)) := by
  rw [afterDelete]
  by_cases hnone : stop ≤ start
  · rw [if_pos hnone, Nat.sub_eq_zero_of_le hnone]
    simp
  · have hlt : start < stop := Nat.not_le.1 hnone
    rw [if_neg hnone, styleAt?_filter]
    have hmoved := styleAt?_moved p.spans x (·.afterDelete start stop)
    by_cases hbefore : x < start
    · rw [if_pos hbefore]
      refine hmoved (·.contains x) ?_
      intro s
      rw [Extent.mem_afterDelete hlt, if_pos hbefore]
      exact Span.contains_iff.symm
    · rw [if_neg hbefore]
      refine hmoved (·.contains (x + (stop - start))) ?_
      intro s
      rw [Extent.mem_afterDelete hlt, if_neg hbefore]
      exact Span.contains_iff.symm

/-- Following an insertion keeps spans canonical. -/
theorem Canonical.afterInsert (hp : p.Canonical) (pos count : Nat) :
    (p.afterInsert pos count).Canonical := by
  obtain ⟨hi, hpos, hlaid⟩ := hp.exists_laid pos
  refine canonical_of_laid ((carried_afterInsert hlaid pos count).laid hi ?_ hlaid)
  show pos + (-(count : Int)).toNat ≤ hi
  omega

theorem Canonical.afterDelete (hp : p.Canonical) (start stop : Nat) :
    (p.afterDelete start stop).Canonical := by
  by_cases hnone : stop ≤ start
  · rw [Paint.afterDelete, if_pos hnone]
    exact hp
  · have hlt : start < stop := Nat.not_le.1 hnone
    obtain ⟨hi, hstop, hlaid⟩ := hp.exists_laid stop
    refine canonical_of_laid ((carried_afterDelete p hlt).laid hi ?_ hlaid)
    show start + (-(-((stop - start : Nat) : Int))).toNat ≤ hi
    omega

/-- **Deleting what was just inserted** brings the spans back. -/
theorem Canonical.afterDelete_afterInsert (hp : p.Canonical) (pos count : Nat) :
    (p.afterInsert pos count).afterDelete pos (pos + count) = p := by
  obtain ⟨spans⟩ := p
  by_cases hnone : count = 0
  · subst hnone
    have hsame : ∀ s : Span, s.moved (s.extent.afterInsert pos 0) = s := by
      intro s
      have hextent : s.extent.afterInsert pos 0 = s.extent := by
        rw [Extent.afterInsert]
        split
        · rfl
        · split <;> rfl
      rw [hextent]
      rfl
    rw [Nat.add_zero, Paint.afterDelete, if_pos (Nat.le_refl pos), Paint.afterInsert]
    simp [hsame]
  · have hback : ∀ s ∈ spans, (s.moved (s.extent.afterInsert pos count)).moved
        ((s.extent.afterInsert pos count).afterDelete pos (pos + count)) = s := by
      intro s hs
      rw [Extent.afterDelete_afterInsert (hp.full s hs) (Nat.pos_of_ne_zero hnone)]
      rfl
    have hall : ((spans.map fun s => s.moved (s.extent.afterInsert pos count)).map fun s =>
        s.moved (s.extent.afterDelete pos (pos + count))) = spans := by
      rw [List.map_map]
      exact (List.map_congr_left hback).trans (List.map_id spans)
    have hfull : ∀ s ∈ spans, (!s.isEmpty) = true := by
      intro s hs
      simpa [Span.isEmpty] using hp.full s hs
    rw [Paint.afterDelete, if_neg (by omega), Paint.afterInsert, hall, List.filter_eq_self.2 hfull]

/-! ## Runs of operations -/

/-- New spans for a window: those of them that hold something lie in order inside it. -/
structure Patch where
  window : Extent
  spans  : List Span
  start_le_stop : window.start ≤ window.stop
  arranged : Arranged (spans.filter fun s => !s.isEmpty) window

/-- An operation on a paint. -/
inductive Op where
  | replace (patch : Patch)
  | afterInsert (pos count : Nat)
  | afterDelete (start stop : Nat)
  | clear

/-- A paint after an operation. -/
def Op.apply (p : Paint) : Op → Paint
  | .replace patch => p.replace patch.window patch.spans
  | .afterInsert pos count => p.afterInsert pos count
  | .afterDelete start stop => p.afterDelete start stop
  | .clear => .empty

/-- What is painted after some operations on an empty paint. -/
def run (ops : List Op) : Paint := ops.foldl Op.apply .empty

/-- The style that an operation gives an offset. -/
def Op.style? (p : Paint) (x : Nat) : Op → Option String
  | .replace patch => if x ∈ patch.window then (Paint.mk patch.spans).styleAt? x else p.styleAt? x
  | .afterInsert pos count =>
    if x < pos then p.styleAt? x
    else if x < pos + count then (p.around? pos).map (·.style)
    else p.styleAt? (x - count)
  | .afterDelete start stop => if x < start then p.styleAt? x else p.styleAt? (x + (stop - start))
  | .clear => none

/-- **One operation** keeps the stored form, and gives each offset its style. -/
theorem Canonical.op (hp : p.Canonical) (o : Op) :
    (o.apply p).Canonical ∧ ∀ x, (o.apply p).styleAt? x = o.style? p x := by
  cases o with
  | replace patch =>
      obtain ⟨window, spans, hle, hspans⟩ := patch
      exact ⟨hp.replace hle hspans, fun x => hp.styleAt?_replace hle hspans⟩
  | afterInsert pos count => exact ⟨hp.afterInsert pos count, p.styleAt?_afterInsert pos count⟩
  | afterDelete start stop => exact ⟨hp.afterDelete start stop, p.styleAt?_afterDelete start stop⟩
  | clear => exact ⟨canonical_empty, fun x => rfl⟩

/-- Any operations lead to a canonical paint. -/
theorem canonical_run (ops : List Op) : (run ops).Canonical :=
  List.foldlRecOn ops Op.apply canonical_empty fun _ hp o _ => (hp.op o).1

/-- **Stored spans are a style for each offset.**  After any operations they are in the stored form,
    and one more operation gives each offset the style that it means; chars that are put in have a
    style exactly when they stand strictly inside a span.  Deleting what was just inserted brings
    the spans back, and asking for a window answers every span clipped to it, those that hold
    something. -/
theorem run_styles (ops : List Op) :
    (run ops).Canonical ∧
    (∀ (o : Op) (x : Nat), (run (ops ++ [o])).styleAt? x = o.style? (run ops) x) ∧
    (∀ pos count x : Nat, pos ≤ x → x < pos + count →
      ((((run ops).afterInsert pos count).styleAt? x).isSome = true ↔
        ∃ s ∈ (run ops).spans, s.start < pos ∧ pos < s.stop)) ∧
    (∀ pos count : Nat,
      ((run ops).afterInsert pos count).afterDelete pos (pos + count) = run ops) ∧
    ∀ window : Extent, (run ops).query window =
      ((run ops).spans.map (·.clip window)).filter fun s => !s.isEmpty := by
  have hrun := canonical_run ops
  refine ⟨hrun, ?_, ?_, hrun.afterDelete_afterInsert, ?_⟩
  · intro o x
    have hlast : run (ops ++ [o]) = o.apply (run ops) := List.foldl_append
    rw [hlast]
    exact (hrun.op o).2 x
  · intro pos count x hpos hlt
    rw [styleAt?_afterInsert, if_neg (Nat.not_lt.2 hpos), if_pos hlt, Option.isSome_map]
    exact around?_isSome
  · intro window
    obtain ⟨hi, -, hlaid⟩ := hrun.exists_laid 0
    exact query_eq hlaid window

end Paint

end Highlighter
