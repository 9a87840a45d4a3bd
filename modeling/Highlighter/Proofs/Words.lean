import Highlighter.Proofs.Batches
import Highlighter.Proofs.Spans
import Highlighter.Proofs.Stale
import Highlighter.Word.Session

/-! # Words — what fits

    Each operation in words either gives what it gives in numbers, or it tells of a sum that
    does not fit (`Computes`); differences and products always do.  Offsets of a text, and
    what is found in it, fit: a text has fewer than `textLimit` chars.  So lines are always
    found, a deletion moves anything down, and an insertion moves up whatever lies in the
    text. -/

namespace Highlighter

/-- Texts have fewer chars than a quarter of the number of words: a char takes four bytes. -/
def textLimit : Nat := 0x4000000000000000

namespace Word

variable {α β : Type}

/-- A computation gives `x`, unless `bad`; then some sum is no word. -/
structure Computes (m : Checked α) (x : α) (bad : Prop) : Prop where
  gives : ¬bad → m = .ok x
  stops : bad → ∃ p q, m = .error (.sum p q)

theorem ok_bind (x : α) (f : α → Checked β) : (Except.ok x >>= f) = f x := rfl

namespace Computes

variable {m : Checked α} {x : α} {y : β} {f : α → Checked β} {bad bad' : Prop}

/-- What gives the answer computes it, when nothing is amiss. -/
theorem of_ok (h : m = .ok x) (hgood : ¬bad) : Computes m x bad :=
  ⟨fun _ => h, fun hbad => absurd hbad hgood⟩

/-- Two steps overflow when one of them does. -/
theorem bind (h : Computes m x bad) (h' : ¬bad → Computes (f x) y bad') :
    Computes (m >>= f) y (bad ∨ bad') := by
  constructor
  · intro hgood
    rw [not_or] at hgood
    rw [h.gives hgood.1, ok_bind]
    exact (h' hgood.1).gives hgood.2
  · intro hbad
    by_cases hfirst : bad
    · obtain ⟨p, q, hstops⟩ := h.stops hfirst
      exact ⟨p, q, by rw [hstops]; rfl⟩
    · obtain ⟨p, q, hstops⟩ := (h' hfirst).stops (hbad.resolve_left hfirst)
      exact ⟨p, q, by rw [h.gives hfirst, ok_bind, hstops]⟩

/-- The condition of an overflow can be put another way. -/
theorem congr (h : Computes m x bad) (hiff : bad ↔ bad') : Computes m x bad' :=
  ⟨fun hgood => h.gives fun hbad => hgood (hiff.1 hbad), fun hbad => h.stops (hiff.2 hbad)⟩

/-- What comes behind need not be bad. -/
theorem bind_ok (h : Computes m x bad) (hrest : ¬bad → f x = .ok y) :
    Computes (m >>= f) y bad :=
  Computes.congr (h.bind fun hgood => of_ok (hrest hgood) not_false) (iff_of_eq (or_false bad))

/-- What is made of an answer overflows when the answer does. -/
theorem map (h : Computes m x bad) (g : α → β) :
    Computes (m >>= fun a => pure (g a)) (g x) bad := h.bind_ok fun _ => rfl

/-- Over a list, what one element asks for must fit for every element. -/
theorem mapM {f : α → Checked β} {g : α → β} {bad : α → Prop} {l : List α}
    (h : ∀ x ∈ l, Computes (f x) (g x) (bad x)) :
    Computes (l.mapM f) (l.map g) (∃ x ∈ l, bad x) := by
  induction l with
  | nil =>
      refine of_ok rfl ?_
      rintro ⟨x, hx, -⟩
      exact absurd hx List.not_mem_nil
  | cons x l ih =>
      have hrest := ih fun y hy => h y (List.mem_cons_of_mem x hy)
      rw [List.mapM_cons]
      refine Computes.congr (Computes.bind (h x List.mem_cons_self) fun _ => hrest.map _) ?_
      simp only [List.mem_cons, exists_eq_or_imp]

/-- A loop whose steps are bad when they make the state bad, which it stays then: it is bad when
    the state ends up bad. -/
theorem foldlM (inv bad : β → Prop) {f : β → α → Checked β} {g : β → α → β} {l : List α}
    (hstep : ∀ b, inv b → ¬bad b → ∀ x ∈ l, Computes (f b x) (g b x) (bad (g b x)) ∧ inv (g b x))
    (hkeep : ∀ b x, bad b → bad (g b x)) {b : β} (hinv : inv b) (hgood : ¬bad b) :
    Computes (l.foldlM f b) (l.foldl g b) (bad (l.foldl g b)) := by
  induction l generalizing b with
  | nil => exact of_ok rfl hgood
  | cons x l ih =>
      obtain ⟨hone, hnext⟩ := hstep b hinv hgood x List.mem_cons_self
      have hstay : ∀ b, bad b → bad (l.foldl g b) := fun b hb =>
        List.foldlRecOn l g hb fun b hb x _ => hkeep b x hb
      rw [List.foldlM_cons, List.foldl_cons]
      refine Computes.congr (Computes.bind hone fun hstill =>
        ih (fun b hb hb' y hy => hstep b hb hb' y (List.mem_cons_of_mem x hy)) hnext hstill) ?_
      exact or_iff_right_of_imp (hstay _)

end Computes

/-- A list is gone through without overflow when each of its items is. -/
theorem mapM_eq_ok {f : α → Checked β} {g : α → β} {l : List α} (h : ∀ x ∈ l, f x = .ok (g x)) :
    l.mapM f = .ok (l.map g) := by
  have hall := Computes.mapM fun x hx => Computes.of_ok (h x hx) not_false
  refine hall.gives ?_
  rintro ⟨-, -, hbad⟩
  exact hbad

/-- A list is folded without overflow when no step overflows. -/
theorem foldlM_eq_ok {f : β → α → Checked β} {g : β → α → β} {l : List α}
    (h : ∀ b x, f b x = .ok (g b x)) (b : β) : l.foldlM f b = .ok (l.foldl g b) := by
  have hall := Computes.foldlM (l := l) (fun _ => True) (fun _ => False)
    (fun b _ _ x _ => ⟨.of_ok (h b x) not_false, trivial⟩) (fun _ _ hbad => hbad) (b := b) trivial
    not_false
  exact hall.gives not_false

/-! ## Sums and differences -/

/-- A sum that is a word is computed. -/
theorem add_eq_ok {a b : Nat} (h : a + b < wordLimit) : add a b = .ok (a + b) := if_pos h

/-- A difference that is not below zero is computed. -/
theorem sub_eq_ok {a b : Nat} (h : b ≤ a) : sub a b = .ok (a - b) := if_pos h

/-- A sum overflows when it is no word. -/
theorem computes_add (a b : Nat) : Computes (add a b) (a + b) (wordLimit ≤ a + b) := by
  constructor
  · intro h
    exact add_eq_ok (Nat.lt_of_not_le h)
  · intro h
    exact ⟨a, b, if_neg (Nat.not_lt.2 h)⟩

theorem wordLimit_eq : wordLimit = 4 * textLimit := rfl

/-- A text and a few chars more fit in a word. -/
theorem lt_wordLimit {n : Nat} (h : n ≤ 2 * textLimit) : n < wordLimit := by
  have hpos : 0 < textLimit := by decide
  rw [wordLimit_eq]
  omega

/-! ## Lines -/

section Lines

variable {doc : Document} (hsmall : doc.length < textLimit)

include hsmall

theorem pastLine_eq (o : Nat) : pastLine doc o = .ok (min (doc.lineEnd o + 1) doc.length) := by
  have hle := doc.lineEnd_le o
  have hfits : doc.lineEnd o + 1 < wordLimit := lt_wordLimit (by omega)
  rw [pastLine, add_eq_ok hfits]
  rfl

theorem snapForward_eq (o : Nat) : snapForward doc o = .ok (doc.snapForward o) := by
  show _ = Except.ok (if o = 0 ∨ doc.length ≤ o ∨ doc.charAt? (o - 1) = some '\n' then
    min o doc.length else min (doc.lineEnd o + 1) doc.length)
  rw [snapForward]
  by_cases hedge : o = 0 ∨ doc.length ≤ o
  · rw [if_pos hedge, if_pos (hedge.imp id .inl)]
    rfl
  · rw [not_or] at hedge
    rw [if_neg (not_or.2 hedge), sub_eq_ok (Nat.one_le_iff_ne_zero.2 hedge.1), ok_bind]
    by_cases hnl : doc.charAt? (o - 1) = some '\n'
    · rw [if_pos hnl, if_pos (.inr (.inr hnl))]
      rfl
    · rw [if_neg hnl, if_neg fun h => h.elim hedge.1 fun h => h.elim hedge.2 hnl, pastLine_eq hsmall]

theorem snapToLines_eq (e : Extent) : snapToLines doc e = .ok (doc.snapToLines e) := by
  rw [snapToLines, pastLine_eq hsmall, ok_bind]
  rfl

theorem lookahead_eq (stop : Nat) : lookahead doc stop = .ok (Analysis.lookahead doc stop) :=
  pastLine_eq hsmall _

end Lines

/-! ## Deletions -/

/-- An offset follows a deletion without going below zero. -/
theorem offsetAfterDelete_eq (start stop p : Nat) :
    offsetAfterDelete start stop p = .ok (Highlighter.offsetAfterDelete start stop p) := by
  rw [offsetAfterDelete, Highlighter.offsetAfterDelete]
  split
  · rfl
  · split
    · rw [sub_eq_ok (by omega)]
    · rfl

theorem afterDelete_eq (e : Extent) (start stop : Nat) :
    afterDelete e start stop = .ok (e.afterDelete start stop) := by
  rw [afterDelete, offsetAfterDelete_eq, offsetAfterDelete_eq]
  rfl

theorem setAfterDelete_eq (s : ExtentSet) (start stop : Nat) :
    setAfterDelete s start stop = .ok (s.afterDelete start stop) := by
  rw [setAfterDelete, ExtentSet.afterDelete]
  split
  · rfl
  · refine foldlM_eq_ok ?_ ExtentSet.empty
    intro t e
    rw [afterDelete_eq]
    rfl

theorem paintAfterDelete_eq (p : Paint) (start stop : Nat) :
    paintAfterDelete p start stop = .ok (p.afterDelete start stop) := by
  have hmoved : ∀ s ∈ p.spans, (do return s.moved (← afterDelete s.extent start stop)) =
      Except.ok (s.moved (s.extent.afterDelete start stop)) := by
    intro s _
    rw [afterDelete_eq]
    rfl
  rw [paintAfterDelete, Paint.afterDelete]
  split
  · rfl
  · rw [mapM_eq_ok hmoved]
    rfl

theorem staleAfterDelete_eq (t : Staleness) (start stop : Nat) :
    staleAfterDelete t start stop = .ok (t.afterDelete start stop) := by
  rw [staleAfterDelete, setAfterDelete_eq, setAfterDelete_eq]
  rfl

/-! ## Insertions -/

/-- An insertion moves an end of an extent to where no word is. -/
def Outgrows (e : Extent) (pos len : Nat) : Prop :=
  (pos ≤ e.start ∧ wordLimit ≤ e.start + len) ∨
    ((pos ≤ e.start ∨ pos < e.stop) ∧ wordLimit ≤ e.stop + len)

/-- An extent that follows an insertion overflows when it outgrows words. -/
theorem computes_afterInsert (e : Extent) (pos len : Nat) :
    Computes (afterInsert e pos len) (e.afterInsert pos len) (Outgrows e pos len) := by
  rw [afterInsert, Extent.afterInsert, Outgrows]
  by_cases hmoves : pos ≤ e.start
  · rw [if_pos hmoves, if_pos hmoves]
    refine Computes.congr (Computes.bind (computes_add e.start len) fun _ =>
      (computes_add e.stop len).map _) ?_
    simp only [hmoves, true_and, true_or]
  · rw [if_neg hmoves, if_neg hmoves]
    by_cases hgrows : pos < e.stop
    · rw [if_pos hgrows, if_pos hgrows]
      refine Computes.congr ((computes_add e.stop len).map _) ?_
      simp only [hmoves, hgrows, false_and, false_or, true_and]
    · rw [if_neg hgrows, if_neg hgrows]
      refine .of_ok rfl ?_
      simp only [hmoves, hgrows, false_and, or_self, not_false_iff]

/-- What lies in a text that stays small does not outgrow the words. -/
theorem not_outgrows {e : Extent} {n pos len : Nat} (hstart : e.start ≤ n) (hstop : e.stop ≤ n)
    (hsmall : n + len < textLimit) : ¬Outgrows e pos len := by
  have hfits := @lt_wordLimit (n + len) (by omega)
  rintro (⟨-, hout⟩ | ⟨-, hout⟩)
  · omega
  · omega

/-- A set that follows an insertion overflows when one of its extents outgrows words. -/
theorem computes_setAfterInsert (s : ExtentSet) (pos len : Nat) :
    Computes (setAfterInsert s pos len) (s.afterInsert pos len)
      (∃ e ∈ s.extents, Outgrows e pos len) := by
  have hall := Computes.mapM fun e (_ : e ∈ s.extents) => computes_afterInsert e pos len
  exact hall.map _

/-- In a small text the paint follows an insertion without overflow. -/
theorem paintAfterInsert_eq {p : Paint} {n pos len : Nat} (h : Laid 0 p.spans n)
    (hsmall : n + len < textLimit) : paintAfterInsert p pos len = .ok (p.afterInsert pos len) := by
  have hmoved : ∀ s ∈ p.spans, (do return s.moved (← afterInsert s.extent pos len)) =
      Except.ok (s.moved (s.extent.afterInsert pos len)) := by
    intro s hs
    have hlt := h.lt hs
    have hstop := (h.bounds hs).2
    have hstart : s.extent.start ≤ n := Nat.le_trans (Nat.le_of_lt hlt) hstop
    have hin : ¬Outgrows s.extent pos len := not_outgrows hstart hstop hsmall
    rw [(computes_afterInsert s.extent pos len).gives hin]
    rfl
  rw [paintAfterInsert, mapM_eq_ok hmoved]
  rfl

/-- What is asked for may lie anywhere; what is dirty lies in the text. -/
theorem computes_staleAfterInsert {t : Staleness} {n pos len : Nat} (h : t.dirty.Upto n)
    (hsmall : n + len < textLimit) :
    Computes (staleAfterInsert t pos len) (t.afterInsert pos len)
      (∃ e ∈ t.requested.extents, Outgrows e pos len) := by
  have hdirty : ¬∃ e ∈ t.dirty.extents, Outgrows e pos len := by
    rintro ⟨e, he, hout⟩
    have hfull := h.canonical.full e he
    have hstop := h.stop_le he
    exact not_outgrows (by omega) hstop hsmall hout
  rw [staleAfterInsert, (computes_setAfterInsert t.dirty pos len).gives hdirty, ok_bind]
  exact (computes_setAfterInsert t.requested pos len).map _

end Word

end Highlighter
