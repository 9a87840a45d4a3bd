import Highlighter.Paint
import Highlighter.Proofs.Edits
import Highlighter.Proofs.OffsetSets

/-! # Laid spans — paint as seen through windows

    What a paint shows is what its windows show (`clipped`).  Every operation on paint is
    described by its windows: replacing cuts a stretch out and puts new spans there
    (`replace_spans`), and an edit keeps the windows before it and moves those behind it
    (`clipped_afterInsert`, `clipped_afterDelete`). -/

namespace Highlighter

/-- The same span elsewhere. -/
def Span.shifted (s : Span) (delta : Int) : Span :=
  ⟨shift s.start delta, shift s.stop delta, s.style⟩

/-- The spans inside a window, clipped to it. -/
def clipped (l : List Span) (a b : Nat) : List Span :=
  (l.map (·.clip ⟨a, b⟩)).filter fun s => !s.isEmpty

/-! ## Windows -/

section Windows

variable {l l' : List Span} {a b a' b' : Nat}

@[simp] theorem clipped_nil : clipped [] a b = [] := rfl

theorem clipped_cons (s : Span) (l : List Span) (a b : Nat) :
    clipped (s :: l) a b =
      (if max s.start a < min s.stop b then [⟨max s.start a, min s.stop b, s.style⟩] else []) ++
        clipped l a b := by
  show ((s :: l).map (·.clip ⟨a, b⟩)).filter (fun s => !s.isEmpty) = _
  rw [List.map_cons, List.filter_cons]
  have hfull : (!(s.clip ⟨a, b⟩).isEmpty) = decide (max s.start a < min s.stop b) := by
    rw [Bool.eq_iff_iff, decide_eq_true_iff]
    show (!decide (min s.stop b ≤ max s.start a)) = true ↔ _
    rw [Bool.not_eq_true', decide_eq_false_iff_not, Nat.not_le]
  rw [hfull]
  by_cases hlt : max s.start a < min s.stop b
  · rw [if_pos hlt, if_pos (decide_eq_true hlt)]
    rfl
  · rw [if_neg hlt, if_neg (by simpa using hlt)]
    rfl

/-- Spans are clipped one by one. -/
theorem clipped_append (l l' : List Span) (a b : Nat) :
    clipped (l ++ l') a b = clipped l a b ++ clipped l' a b := by
  show ((l ++ l').map _).filter _ = (l.map _).filter _ ++ (l'.map _).filter _
  rw [List.map_append, List.filter_append]

/-- A window of a window is what the two have in common. -/
theorem clipped_clipped (l : List Span) (a b a' b' : Nat) :
    clipped (clipped l a b) a' b' = clipped l (max a a') (min b b') := by
  induction l with
  | nil => rfl
  | cons s l ih =>
      rw [clipped_cons, clipped_cons, clipped_append, ih]
      congr 1
      by_cases hlt : max s.start a < min s.stop b
      · rw [if_pos hlt, clipped_cons, clipped_nil, List.append_nil, Nat.max_assoc, Nat.min_assoc]
      · rw [if_neg hlt, clipped_nil, if_neg (by omega)]

/-- Nothing is inside an empty window. -/
theorem clipped_of_le (h : b ≤ a) : clipped l a b = [] := by
  induction l with
  | nil => rfl
  | cons s l ih => rw [clipped_cons, if_neg (by omega), ih, List.append_nil]

/-- What a map does to windows is what it does to the windows of its single spans. -/
theorem clipped_map {f g : Span → Span}
    (h : ∀ s ∈ l, clipped [f s] a' b' = (clipped [s] a b).map g) :
    clipped (l.map f) a' b' = (clipped l a b).map g := by
  induction l with
  | nil => rfl
  | cons s l ih =>
      have hcons : clipped (s :: l) a b = clipped [s] a b ++ clipped l a b := clipped_append [s] l a b
      have hcons' : clipped (f s :: l.map f) a' b' = clipped [f s] a' b' ++ clipped (l.map f) a' b' :=
        clipped_append [f s] _ a' b'
      rw [List.map_cons, hcons, hcons', List.map_append, h s List.mem_cons_self,
        ih fun s' hs' => h s' (List.mem_cons_of_mem s hs')]

theorem clipped_singleton (s : Span) (a b : Nat) :
    clipped [s] a b =
      if max s.start a < min s.stop b then [⟨max s.start a, min s.stop b, s.style⟩] else [] := by
  rw [clipped_cons, clipped_nil, List.append_nil]

/-- Empty spans show in no window. -/
theorem clipped_filter (l : List Span) (a b : Nat) :
    clipped (l.filter fun s => !s.isEmpty) a b = clipped l a b := by
  induction l with
  | nil => rfl
  | cons s l ih =>
      rw [List.filter_cons]
      by_cases hempty : s.isEmpty = true
      · have hle : s.stop ≤ s.start := of_decide_eq_true hempty
        rw [if_neg (by simp [hempty]), clipped_cons, if_neg (by omega), ih, List.nil_append]
      · rw [if_pos (by simp [hempty]), clipped_cons, clipped_cons, ih]

/-- Moving keeps what is less, unless it leads before the text. -/
theorem shift_lt_shift {x y : Nat} {delta : Int} (hx : 0 ≤ (x : Int) + delta) :
    shift x delta < shift y delta ↔ x < y := by
  show ((x : Int) + delta).toNat < ((y : Int) + delta).toNat ↔ x < y
  omega

theorem shift_max (x y : Nat) (delta : Int) :
    shift (max x y) delta = max (shift x delta) (shift y delta) := by
  show (((max x y : Nat) : Int) + delta).toNat =
    max ((x : Int) + delta).toNat ((y : Int) + delta).toNat
  omega

theorem shift_min (x y : Nat) (delta : Int) :
    shift (min x y) delta = min (shift x delta) (shift y delta) := by
  show (((min x y : Nat) : Int) + delta).toNat =
    min ((x : Int) + delta).toNat ((y : Int) + delta).toNat
  omega

theorem map_shifted_zero (l : List Span) : l.map (·.shifted 0) = l := by
  have hid : (fun s : Span => s.shifted 0) = id := by
    funext s
    show Span.mk (shift s.start 0) (shift s.stop 0) s.style = s
    rw [shift_zero, shift_zero]
  rw [hid, List.map_id]

/-- Moved spans show in a moved window what they show in the window. -/
theorem clipped_shifted {delta : Int} (ha : 0 ≤ (a : Int) + delta) :
    clipped (l.map (·.shifted delta)) (shift a delta) (shift b delta) =
      (clipped l a b).map (·.shifted delta) := by
  refine clipped_map ?_
  intro s _
  have hle : (a : Int) ≤ (max s.start a : Nat) := by omega
  rw [clipped_singleton, clipped_singleton]
  show (if max (shift s.start delta) (shift a delta) < min (shift s.stop delta) (shift b delta) then
    [Span.mk (max (shift s.start delta) (shift a delta)) (min (shift s.stop delta) (shift b delta))
      s.style] else []) = _
  rw [← shift_max, ← shift_min]
  by_cases hlt : max s.start a < min s.stop b
  · rw [if_pos hlt, if_pos ((shift_lt_shift (by omega)).2 hlt)]
    rfl
  · rw [if_neg hlt, if_neg fun h => hlt ((shift_lt_shift (by omega)).1 h)]
    rfl

end Windows

/-! ## Spans in order -/

/-- Non-empty spans in order, from `lo` on and up to `hi`, none over another. -/
def Laid : (lo : Nat) → List Span → (hi : Nat) → Prop
  | lo, [], hi => lo ≤ hi
  | lo, s :: rest, hi => lo ≤ s.start ∧ s.start < s.stop ∧ Laid s.stop rest hi

namespace Laid

variable {l l' : List Span} {lo hi lo' hi' mid a b : Nat}

/-- Spans take room. -/
theorem le (h : Laid lo l hi) : lo ≤ hi := by
  induction l generalizing lo with
  | nil => exact h
  | cons s rest ih =>
      obtain ⟨hlo, hlt, hrest⟩ := h
      have := ih hrest
      omega

/-- Spans that lie between two places lie between any farther apart. -/
theorem mono (h : Laid lo l hi) (hlo : lo' ≤ lo) (hhi : hi ≤ hi') : Laid lo' l hi' := by
  induction l generalizing lo lo' with
  | nil => exact Nat.le_trans (Nat.le_trans hlo h) hhi
  | cons s rest ih =>
      obtain ⟨hstart, hlt, hrest⟩ := h
      exact ⟨Nat.le_trans hlo hstart, hlt, ih hrest (Nat.le_refl _)⟩

/-- Laid spans are not empty, and lie between the ends. -/
theorem lt (h : Laid lo l hi) {s : Span} (hs : s ∈ l) : s.start < s.stop := by
  induction l generalizing lo with
  | nil => exact absurd hs List.not_mem_nil
  | cons s' rest ih =>
      rcases List.mem_cons.1 hs with rfl | hs
      · exact h.2.1
      · exact ih h.2.2 hs

/-- Each span lies inside. -/
theorem bounds (h : Laid lo l hi) {s : Span} (hs : s ∈ l) : lo ≤ s.start ∧ s.stop ≤ hi := by
  induction l generalizing lo with
  | nil => exact absurd hs List.not_mem_nil
  | cons s' rest ih =>
      obtain ⟨hstart, hlt, hrest⟩ := h
      rcases List.mem_cons.1 hs with rfl | hs
      · exact ⟨hstart, hrest.le⟩
      · obtain ⟨hlo, hhi⟩ := ih hrest hs
        exact ⟨by omega, hhi⟩

/-- Spans that lie side by side lie in order together. -/
theorem append (h : Laid lo l mid) (h' : Laid mid l' hi) : Laid lo (l ++ l') hi := by
  induction l generalizing lo with
  | nil => exact h'.mono h (Nat.le_refl _)
  | cons s rest ih =>
      obtain ⟨hstart, hlt, hrest⟩ := h
      exact ⟨hstart, hlt, ih hrest⟩

/-- None of them is empty. -/
theorem filter_eq (h : Laid lo l hi) : l.filter (fun s => !s.isEmpty) = l := by
  induction l generalizing lo with
  | nil => rfl
  | cons s rest ih =>
      obtain ⟨-, hlt, hrest⟩ := h
      have hfull : s.isEmpty = false := decide_eq_false (Nat.not_le.2 hlt)
      rw [List.filter_cons, hfull, ih hrest]
      rfl

/-- A window that holds all of the spans shows them as they are. -/
theorem clipped_self (h : Laid lo l hi) (ha : a ≤ lo) (hb : hi ≤ b) : clipped l a b = l := by
  induction l generalizing lo a with
  | nil => rfl
  | cons s rest ih =>
      obtain ⟨hstart, hlt, hrest⟩ := h
      have hstop := hrest.le
      have hmax : max s.start a = s.start := by omega
      have hmin : min s.stop b = s.stop := by omega
      rw [clipped_cons, hmax, hmin, if_pos hlt, ih hrest (by omega)]
      rfl

/-- A window before the spans, or behind them, shows nothing. -/
theorem clipped_apart (h : Laid lo l hi) (hapart : b ≤ lo ∨ hi ≤ a) : clipped l a b = [] := by
  induction l generalizing lo with
  | nil => rfl
  | cons s rest ih =>
      obtain ⟨hstart, hlt, hrest⟩ := h
      have hstop := hrest.le
      rw [clipped_cons, if_neg (by omega), ih hrest (by omega), List.append_nil]

/-- What a window shows is laid inside it. -/
theorem clipped (h : Laid lo l hi) (hab : a ≤ b) : Laid a (clipped l a b) b := by
  induction l generalizing lo a with
  | nil => exact hab
  | cons s rest ih =>
      obtain ⟨hstart, hlt, hrest⟩ := h
      rw [clipped_cons]
      by_cases hin : max s.start a < min s.stop b
      · have hmid : max a (min s.stop b) = min s.stop b := by omega
        have hlast := ih (a := min s.stop b) hrest (by omega)
        have heq : Highlighter.clipped rest a b = Highlighter.clipped rest (min s.stop b) b := by
          have hself := hrest.clipped_self (a := s.stop) (b := max hi b) (Nat.le_refl _) (by omega)
          have hboth : Highlighter.clipped (Highlighter.clipped rest s.stop (max hi b)) a b =
              Highlighter.clipped (Highlighter.clipped rest s.stop (max hi b)) (min s.stop b) b := by
            rw [clipped_clipped, clipped_clipped]
            congr 1
            omega
          rwa [hself] at hboth
        rw [if_pos hin, heq]
        exact ⟨by simp only; omega, by simp only; omega, hlast⟩
      · rw [if_neg hin]
        exact ih hrest hab

/-- Moved along they lie in order where they are moved to. -/
theorem shifted (h : Laid lo l hi) {delta : Int} (hlo : 0 ≤ (lo : Int) + delta) :
    Laid (shift lo delta) (l.map (·.shifted delta)) (shift hi delta) := by
  induction l generalizing lo with
  | nil => exact shift_mono h
  | cons s rest ih =>
      obtain ⟨hstart, hlt, hrest⟩ := h
      exact ⟨shift_mono hstart, (shift_lt_shift (by omega)).2 hlt, ih hrest (by omega)⟩

end Laid

/-- Non-empty spans in order inside a window, none over another. -/
structure Arranged (l : List Span) (window : Extent) : Prop where
  full   : ∀ s ∈ l, s.start < s.stop
  order  : l.Pairwise fun s s' => s.stop ≤ s'.start
  inside : ∀ s ∈ l, window.start ≤ s.start ∧ s.stop ≤ window.stop

/-- Spans that lie in order are arranged in a window. -/
theorem Laid.arranged {lo hi : Nat} {l : List Span} (h : Laid lo l hi) : Arranged l ⟨lo, hi⟩ := by
  refine ⟨fun s hs => h.lt hs, ?_, fun s hs => h.bounds hs⟩
  induction l generalizing lo with
  | nil => exact .nil
  | cons s rest ih =>
      obtain ⟨-, -, hrest⟩ := h
      exact List.pairwise_cons.2 ⟨fun s' hs' => (hrest.bounds hs').1, ih hrest⟩

/-- Spans that are arranged in a window lie in order. -/
theorem Arranged.laid {l : List Span} {window : Extent} (h : Arranged l window)
    (hle : window.start ≤ window.stop) : Laid window.start l window.stop := by
  obtain ⟨u, v⟩ := window
  obtain ⟨hfull, horder, hinside⟩ := h
  induction l generalizing u with
  | nil => exact hle
  | cons s rest ih =>
      obtain ⟨hfirst, horder⟩ := List.pairwise_cons.1 horder
      obtain ⟨hstart, hstop⟩ := hinside s List.mem_cons_self
      refine ⟨hstart, hfull s List.mem_cons_self, ih s.stop hstop ?_ horder ?_⟩
      · intro s' hs'
        exact hfull s' (List.mem_cons_of_mem s hs')
      · intro s' hs'
        exact ⟨hfirst s' hs', (hinside s' (List.mem_cons_of_mem s hs')).2⟩

theorem exists_upto {α : Type} (f : α → Nat) (l : List α) : ∃ n, ∀ a ∈ l, f a ≤ n := by
  induction l with
  | nil => exact ⟨0, by simp⟩
  | cons a rest ih =>
      obtain ⟨n, hn⟩ := ih
      refine ⟨max (f a) n, ?_⟩
      intro b hb
      rcases List.mem_cons.1 hb with rfl | hb
      · exact Nat.le_max_left _ _
      · exact Nat.le_trans (hn b hb) (Nat.le_max_right _ _)

/-! ## Asking for spans -/

/-- Along laid spans both ends ascend. -/
theorem Laid.ascends {l : List Span} {lo hi : Nat} (h : Laid lo l hi) :
    l.Pairwise fun s s' => s.start < s'.start ∧ s.stop < s'.stop := by
  induction l generalizing lo with
  | nil => exact .nil
  | cons s rest ih =>
      obtain ⟨-, hlt, hrest⟩ := h
      refine List.pairwise_cons.2 ⟨?_, ih hrest⟩
      intro s' hs'
      have hstart := (hrest.bounds hs').1
      have hfull := hrest.lt hs'
      omega

/-- **Asking for a window** answers all spans clipped to it, those that hold something: the search
    for them passes over none. -/
theorem Paint.query_eq {p : Paint} {lo hi : Nat} (h : Laid lo p.spans hi) (window : Extent) :
    p.query window = clipped p.spans window.start window.stop := by
  have hstops : p.spans.Pairwise fun s s' =>
      decide (s'.stop ≤ window.start) = true → decide (s.stop ≤ window.start) = true := by
    refine h.ascends.imp ?_
    intro hlt
    simp only [decide_eq_true_iff]
    omega
  have hstarts : p.spans.Pairwise fun s s' =>
      decide (s'.start < window.stop) = true → decide (s.start < window.stop) = true := by
    refine h.ascends.imp ?_
    intro hlt
    simp only [decide_eq_true_iff]
    omega
  refine searched_eq hstops hstarts ?_
  intro s _ hshows
  have hlt : (s.clip window).start < (s.clip window).stop := by simpa [Span.isEmpty] using hshows
  have hlt : max s.start window.start < min s.stop window.stop := hlt
  simp only [decide_eq_false_iff_not, decide_eq_true_iff]
  omega

/-! ## Painting over -/

section Replace

variable {l spans : List Span} {lo hi u v : Nat}

/-- What lies left of a window: the spans before it, and the outside part of the one that reaches
    into it. -/
theorem clipped_left (h : Laid lo l hi) (huv : u ≤ v) :
    clipped l 0 u = l.takeWhile (fun s => s.stop ≤ u) ++
      ((((l.dropWhile fun s => s.stop ≤ u).takeWhile fun s => s.start < v).head?.filter
        fun s => s.start < u).map fun s => s.moved ⟨s.start, u⟩).toList := by
  induction l generalizing lo with
  | nil => rfl
  | cons s rest ih =>
      obtain ⟨hstart, hlt, hrest⟩ := h
      rw [clipped_cons, List.takeWhile_cons, List.dropWhile_cons, Nat.max_zero]
      by_cases hbefore : s.stop ≤ u
      · have hmin : min s.stop u = s.stop := Nat.min_eq_left hbefore
        rw [hmin, if_pos hlt, ih hrest]
        simp [hbefore]
      · have hmin : min s.stop u = u := by omega
        have hnone : clipped rest 0 u = [] := hrest.clipped_apart (.inl (by omega))
        rw [hmin, hnone]
        by_cases hreach : s.start < u
        · have hin : s.start < v := by omega
          simp [hbefore, hreach, hin, Option.filter_some, Span.moved]
        · by_cases hin : s.start < v <;> simp [hbefore, hreach, hin, Option.filter_some]

/-- What lies right of a window, once the spans before it are left out. -/
theorem clipped_right (h : Laid lo l hi) :
    clipped l v hi =
      (((l.takeWhile fun s => s.start < v).getLast?.filter fun s => v < s.stop).map
        fun s => s.moved ⟨v, s.stop⟩).toList ++ l.dropWhile (fun s => s.start < v) := by
  induction l generalizing lo with
  | nil => rfl
  | cons s rest ih =>
      obtain ⟨hstart, hlt, hrest⟩ := h
      have hmin : min s.stop hi = s.stop := Nat.min_eq_left hrest.le
      by_cases hin : s.start < v
      · have hmax : max s.start v = v := by omega
        rw [clipped_cons, hmax, hmin, ih hrest, List.takeWhile_cons, List.dropWhile_cons,
          ← List.append_assoc]
        simp only [hin, decide_true]
        congr 1
        -- only the last span that begins before `v` can reach past it
        cases rest with
        | nil => by_cases hreach : v < s.stop <;> simp [hreach, Option.filter_some, Span.moved]
        | cons s' rest' =>
            obtain ⟨hstart', -, -⟩ := hrest
            by_cases hin' : s'.start < v
            · have hshort : ¬v < s.stop := by omega
              simp [hin', hshort]
            · by_cases hreach : v < s.stop <;>
                simp [hin', hreach, Option.filter_some, Span.moved]
      · have hlaid : Laid s.start (s :: rest) hi := ⟨Nat.le_refl _, hlt, hrest⟩
        rw [hlaid.clipped_self (by omega) (Nat.le_refl _), List.takeWhile_cons, List.dropWhile_cons]
        simp [hin]

/-- Leaving out what lies before the window changes nothing behind it. -/
theorem clipped_dropWhile (h : Laid lo l hi) (huv : u ≤ v) :
    ∃ lo', Laid lo' (l.dropWhile fun s => s.stop ≤ u) hi ∧
      clipped (l.dropWhile fun s => s.stop ≤ u) v hi = clipped l v hi := by
  induction l generalizing lo with
  | nil => exact ⟨lo, h, rfl⟩
  | cons s rest ih =>
      rw [List.dropWhile_cons]
      by_cases hbefore : s.stop ≤ u
      · obtain ⟨lo', hlaid, hsame⟩ := ih h.2.2
        have hnone : ¬max s.start v < min s.stop hi := by omega
        simp only [hbefore, decide_true, if_true]
        rw [clipped_cons s, if_neg hnone, List.nil_append]
        exact ⟨lo', hlaid, hsame⟩
      · simp only [hbefore, decide_false]
        exact ⟨lo, h, rfl⟩

/-- **Replacing** keeps what lies left and right of the window, and shows the new spans in it that
    hold something. -/
theorem replace_spans {p : Paint} (h : Laid lo p.spans hi) (huv : u ≤ v) (spans : List Span) :
    (p.replace ⟨u, v⟩ spans).spans =
      clipped p.spans 0 u ++ spans.filter (fun s => !s.isEmpty) ++ clipped p.spans v hi := by
  obtain ⟨lo', hlaid, hsame⟩ := clipped_dropWhile h huv
  rw [clipped_left h huv, ← hsame, clipped_right hlaid]
  show _ ++ _ ++ spans.filter (fun s => !s.isEmpty) ++ _ ++ _ = _
  simp only [List.append_assoc]

/-- Spans lie in order after a window of them is replaced. -/
theorem laid_replace {p : Paint} (h : Laid lo p.spans hi) (hv : v ≤ hi)
    (hspans : Laid u (spans.filter fun s => !s.isEmpty) v) :
    Laid 0 (p.replace ⟨u, v⟩ spans).spans hi := by
  rw [replace_spans h hspans.le]
  exact ((h.clipped (Nat.zero_le u)).append hspans).append (h.clipped hv)

end Replace

/-! ## Paint under edits -/

/-- Where an edit takes the start of what it moves. -/
def Edit.startAfter (e : Edit) (o : Nat) : Nat :=
  if o < e.pos then o else if e.oldStop ≤ o then shift o e.delta else e.newStop

/-- Where an edit takes the end of what it moves. -/
def Edit.stopAfter (e : Edit) (o : Nat) : Nat :=
  if o ≤ e.pos then o else if e.oldStop ≤ o then shift o e.delta else e.newStop

/-- A span after an edit. -/
def Span.after (s : Span) (e : Edit) : Span :=
  ⟨e.startAfter s.start, e.stopAfter s.stop, s.style⟩

/-- A paint that an edit has moved: as before in front of the edit, moved along behind it. -/
structure Paint.Carried (p p' : Paint) (e : Edit) : Prop where
  before : ∀ a b, b ≤ e.pos → clipped p'.spans a b = clipped p.spans a b
  behind : ∀ a b, e.oldStop ≤ a →
    clipped p'.spans (shift a e.delta) (shift b e.delta) =
      (clipped p.spans a b).map (·.shifted e.delta)
  laid   : ∀ size, e.oldStop ≤ size → Laid 0 p.spans size → Laid 0 p'.spans (shift size e.delta)

section Carried

variable {l : List Span} {e : Edit} {a b lo hi : Nat}

/-- Before an edit no end of a span moves. -/
theorem Edit.min_stopAfter (hb : b ≤ e.pos) (o : Nat) : min (e.stopAfter o) b = min o b := by
  obtain ⟨-, hnew, hold⟩ := e.stops
  rw [Edit.stopAfter]
  split
  · rfl
  · split
    · have := shift_of_le (o := o) (by assumption)
      omega
    · omega

/-- What starts in an edit or behind it starts there afterwards, too. -/
theorem Edit.pos_le_startAfter {o : Nat} (ho : e.pos ≤ o) : e.pos ≤ e.startAfter o := by
  obtain ⟨-, hnew, hold⟩ := e.stops
  rw [Edit.startAfter, if_neg (Nat.not_lt.2 ho)]
  split
  · have := shift_of_le (o := o) (by assumption)
    omega
  · exact hnew

/-- An edit leaves what is seen before it as it was. -/
theorem clipped_after_before (hb : b ≤ e.pos) :
    clipped (l.map (·.after e)) a b = clipped l a b := by
  have key : clipped (l.map (·.after e)) a b = (clipped l a b).map id := by
    refine clipped_map ?_
    intro s _
    obtain ⟨h1, h2, h3⟩ := e.stops
    rw [List.map_id, clipped_singleton, clipped_singleton]
    show (if max (e.startAfter s.start) a < min (e.stopAfter s.stop) b then
      [Span.mk (max (e.startAfter s.start) a) (min (e.stopAfter s.stop) b) s.style] else []) = _
    have hstop := e.min_stopAfter hb s.stop
    by_cases hstart : s.start < e.pos
    · rw [hstop, Edit.startAfter, if_pos hstart]
    · have hge := e.pos_le_startAfter (Nat.le_of_not_lt hstart)
      rw [if_neg (by omega), if_neg (by omega)]
  rwa [List.map_id] at key

/-- What is seen behind an edit is moved along. -/
theorem clipped_after_behind (ha : e.oldStop ≤ a) :
    clipped (l.map (·.after e)) (shift a e.delta) (shift b e.delta) =
      (clipped l a b).map (·.shifted e.delta) := by
  refine clipped_map ?_
  intro s _
  obtain ⟨h1, h2, h3⟩ := e.stops
  have hcast := shift_of_le ha
  rw [clipped_singleton, clipped_singleton]
  show (if max (e.startAfter s.start) (shift a e.delta) <
      min (e.stopAfter s.stop) (shift b e.delta) then
    [Span.mk (max (e.startAfter s.start) (shift a e.delta))
      (min (e.stopAfter s.stop) (shift b e.delta)) s.style] else []) = _
  by_cases hbehind : e.oldStop < s.stop
  · have hstop : e.stopAfter s.stop = shift s.stop e.delta := by
      rw [Edit.stopAfter, if_neg (by omega), if_pos (Nat.le_of_lt hbehind)]
    have hstart : max (e.startAfter s.start) (shift a e.delta) =
        shift (max s.start a) e.delta := by
      rw [shift_max, Edit.startAfter]
      by_cases hmoved : e.oldStop ≤ s.start
      · rw [if_neg (by omega), if_pos hmoved]
      · have hle : shift s.start e.delta ≤ shift a e.delta := shift_mono (by omega)
        rw [if_neg hmoved]
        split <;> omega
    rw [hstart, hstop, ← shift_min]
    by_cases hlt : max s.start a < min s.stop b
    · rw [if_pos hlt, if_pos ((shift_lt_shift (by omega)).2 hlt)]
      rfl
    · rw [if_neg hlt, if_neg fun h => hlt ((shift_lt_shift (by omega)).1 h)]
      rfl
  · -- the span ends at or before the end of the edit
    have hstop : e.stopAfter s.stop ≤ e.newStop := by
      rw [Edit.stopAfter]
      split
      · omega
      · split
        · have := shift_of_le (o := s.stop) (by assumption)
          omega
        · exact Nat.le_refl _
    rw [if_neg (by omega), if_neg (by omega), List.map_nil]

/-- What ends where something starts, or before, still does. -/
theorem Edit.stopAfter_le {o o' : Nat} (h : o ≤ o') : e.stopAfter o ≤ e.startAfter o' := by
  obtain ⟨h1, h2, h3⟩ := e.stops
  have hle : shift o e.delta ≤ shift o' e.delta := shift_mono h
  rw [Edit.startAfter, Edit.stopAfter]
  by_cases hpos : o' < e.pos
  · rw [if_pos hpos, if_pos (by omega)]
    exact h
  · rw [if_neg hpos]
    by_cases hold : e.oldStop ≤ o'
    · have := shift_of_le hold
      rw [if_pos hold]
      split
      · omega
      · split
        · exact hle
        · omega
    · rw [if_neg hold]
      split
      · omega
      · refine Nat.le_of_eq ?_
        rw [if_neg (by omega)]

/-- Edits keep the order of starts. -/
theorem Edit.startAfter_mono {o o' : Nat} (h : o ≤ o') : e.startAfter o ≤ e.startAfter o' := by
  obtain ⟨h1, h2, h3⟩ := e.stops
  have hle : shift o e.delta ≤ shift o' e.delta := shift_mono h
  rw [Edit.startAfter, Edit.startAfter]
  by_cases hpos : o' < e.pos
  · rw [if_pos hpos, if_pos (by omega)]
    exact h
  · rw [if_neg hpos]
    by_cases hold : e.oldStop ≤ o'
    · have := shift_of_le hold
      rw [if_pos hold]
      split
      · omega
      · split
        · exact hle
        · omega
    · rw [if_neg hold]
      split
      · omega
      · refine Nat.le_of_eq ?_
        rw [if_neg (by omega)]

/-- Laid spans are laid after an edit, but for those that it has emptied. -/
theorem laid_after (h : Laid lo l hi) (hold : e.oldStop ≤ hi) :
    Laid (e.startAfter lo) ((l.map (·.after e)).filter fun s => !s.isEmpty)
      (shift hi e.delta) := by
  induction l generalizing lo with
  | nil =>
      have hlast : e.startAfter hi = shift hi e.delta ∨ e.startAfter hi ≤ shift hi e.delta := by
        obtain ⟨h1, h2, h3⟩ := e.stops
        have := shift_of_le hold
        rw [Edit.startAfter, if_pos hold]
        split <;> omega
      have hmono : e.startAfter lo ≤ e.startAfter hi := Edit.startAfter_mono h
      show e.startAfter lo ≤ shift hi e.delta
      omega
  | cons s rest ih =>
      obtain ⟨hstart, hlt, hrest⟩ := h
      have hlast := ih hrest
      rw [List.map_cons, List.filter_cons]
      by_cases hempty : (s.after e).isEmpty = true
      · rw [if_neg (by simp [hempty])]
        exact hlast.mono (Edit.startAfter_mono (by omega)) (Nat.le_refl _)
      · have hfull : e.startAfter s.start < e.stopAfter s.stop :=
          Nat.not_le.1 fun hle => hempty (decide_eq_true hle)
        rw [if_pos (by simp [hempty])]
        exact ⟨Edit.startAfter_mono hstart, hfull,
          hlast.mono (Edit.stopAfter_le (Nat.le_refl _)) (Nat.le_refl _)⟩

/-- A paint of the spans after an edit, without those that it has emptied. -/
theorem Paint.carried_of_after {p p' : Paint}
    (h : p'.spans = (p.spans.map (·.after e)).filter fun s => !s.isEmpty) : p.Carried p' e where
  before := fun a b hb => by rw [h, clipped_filter, clipped_after_before hb]
  behind := fun a b ha => by rw [h, clipped_filter, clipped_after_behind ha]
  laid := fun size hsize hlaid => by
    rw [h]
    exact (laid_after hlaid hsize).mono (Nat.zero_le _) (Nat.le_refl _)

theorem Edit.insertion_startAfter (pos count o : Nat) :
    (insertion pos count).startAfter o = if pos ≤ o then o + count else o := by
  rw [startAfter, insertion_oldStop, shift_insertion]
  show (if o < pos then o else if pos ≤ o then o + count else _) = _
  by_cases hin : pos ≤ o
  · rw [if_neg (by omega), if_pos hin, if_pos hin]
  · rw [if_pos (by omega), if_neg hin]

theorem Edit.insertion_stopAfter (pos count o : Nat) :
    (insertion pos count).stopAfter o = if o ≤ pos then o else o + count := by
  rw [stopAfter, insertion_oldStop, shift_insertion]
  show (if o ≤ pos then o else if pos ≤ o then o + count else _) = _
  by_cases hin : o ≤ pos
  · rw [if_pos hin, if_pos hin]
  · rw [if_neg hin, if_neg hin, if_pos (by omega)]

/-- Inserting takes no span away. -/
theorem Span.after_insertion {s : Span} (h : s.start < s.stop) (pos count : Nat) :
    s.moved (s.extent.afterInsert pos count) = s.after (.insertion pos count) ∧
      (s.after (.insertion pos count)).isEmpty = false := by
  rw [Span.after, Edit.insertion_startAfter, Edit.insertion_stopAfter, Extent.afterInsert]
  show s.moved (if pos ≤ s.start then ⟨s.start + count, s.stop + count⟩
    else if pos < s.stop then ⟨s.start, s.stop + count⟩ else s.extent) = _ ∧ _
  by_cases hbehind : pos ≤ s.start
  · have hstop : ¬s.stop ≤ pos := by omega
    simp only [hbehind, hstop, if_true, if_false]
    exact ⟨rfl, decide_eq_false (by simp only; omega)⟩
  · by_cases hover : pos < s.stop
    · have hstop : ¬s.stop ≤ pos := by omega
      simp only [hbehind, hover, hstop, if_true, if_false]
      exact ⟨rfl, decide_eq_false (by simp only; omega)⟩
    · have hstop : s.stop ≤ pos := by omega
      simp only [hbehind, hover, hstop, if_true, if_false]
      exact ⟨rfl, decide_eq_false (by simp only; omega)⟩

/-- The paint follows an insertion. -/
theorem Paint.carried_afterInsert {p : Paint} {size : Nat} (hp : Laid 0 p.spans size)
    (pos count : Nat) : p.Carried (p.afterInsert pos count) (.insertion pos count) := by
  refine Paint.carried_of_after ?_
  have hspans : (p.afterInsert pos count).spans = p.spans.map (·.after (.insertion pos count)) :=
    List.map_congr_left fun s hs => (Span.after_insertion (hp.lt hs) pos count).1
  rw [hspans, eq_comm, List.filter_eq_self]
  rintro s' hs'
  obtain ⟨s, hs, rfl⟩ := List.mem_map.1 hs'
  rw [(Span.after_insertion (hp.lt hs) pos count).2]
  rfl

theorem Paint.carried_afterDelete (p : Paint) {start stop : Nat} (h : start < stop) :
    p.Carried (p.afterDelete start stop) (.deletion start stop) := by
  have hold := Edit.deletion_oldStop (Nat.le_of_lt h)
  refine Paint.carried_of_after ?_
  rw [Paint.afterDelete, if_neg (by omega)]
  refine congrArg (List.filter _) (List.map_congr_left ?_)
  intro s _
  show Span.mk (offsetAfterDelete start stop s.start) (offsetAfterDelete start stop s.stop) s.style =
    Span.mk _ _ s.style
  rw [Edit.startAfter, Edit.stopAfter, hold, Edit.deletion_newStop, Edit.shift_deletion,
    Edit.shift_deletion, offsetAfterDelete, offsetAfterDelete]
  show Span.mk _ _ _ = Span.mk (if s.start < start then _ else _) (if s.stop ≤ start then _ else _) _
  have hat : (if s.start ≤ start then s.start
      else if stop ≤ s.start then s.start - (stop - start) else start) =
      if s.start < start then s.start
      else if stop ≤ s.start then s.start - (stop - start) else start := by
    split
    · split
      · rfl
      · rw [if_neg (by omega)]
        omega
    · rw [if_neg (by omega : ¬s.start < start)]
  rw [hat]

end Carried

end Highlighter
