import Highlighter.Proofs.Stale

/-! # Sweeps — the passes of a refresh

    The stale parts of a range are found once, before anything is rendered.  The renderer then
    covers what it likes: more than the part it is given, nothing, or text elsewhere.  So a
    part may have nothing dirty left when its turn comes, and then it is skipped.

    A sweep (`Sweep`) is such a run through the parts, with the calls that the renderer gets.
    All that a refresh does is said by these calls: the dirty set loses what they were given
    and what they covered (`Sweep.mem_iff`), each was given a part with something dirty in it
    (`Sweep.needed`), and what was skipped an earlier one had covered (`Sweep.reached`). -/

namespace Highlighter

namespace Staleness

variable {σ : Type} {render : σ → Extent → σ × Extent} {t : Staleness} {s s' : σ}
  {d d' : ExtentSet} {e part : Extent} {x : Nat}

/-! ## States of use -/

/-- The states that marks, requests, edits and refreshes lead to, with any renderers. -/
inductive Reachable : Staleness → Prop
  | fresh : Reachable {}
  | mark {t : Staleness} (h : Reachable t) (e : Extent) : Reachable (t.mark e)
  | request {t : Staleness} (h : Reachable t) (e : Extent) : Reachable (t.request e)
  | clearRequested {t : Staleness} (h : Reachable t) : Reachable t.clearRequested
  | clearDirty {t : Staleness} (h : Reachable t) : Reachable t.clearDirty
  | refresh {t : Staleness} (h : Reachable t) (e : Extent) {σ : Type}
      (render : σ → Extent → σ × Extent) (s : σ) : Reachable (t.refresh e render s).1
  | afterInsert {t : Staleness} (h : Reachable t) (pos count : Nat) :
      Reachable (t.afterInsert pos count)
  | afterDelete {t : Staleness} (h : Reachable t) (start stop : Nat) :
      Reachable (t.afterDelete start stop)

/-! ## Calls of the renderer -/

/-- A call of the renderer: the part that it is given, and the extent that it answers. -/
structure Pass where
  part    : Extent
  covered : Extent
  deriving DecidableEq

/-- A pass cleans what it is given, and what it covers. -/
def Pass.Cleans (pass : Pass) (x : Nat) : Prop := x ∈ pass.part ∨ x ∈ pass.covered

/-- A renderer that keeps a record of its calls. -/
def recorded (render : σ → Extent → σ × Extent) (s : σ × List Pass) (part : Extent) :
    (σ × List Pass) × Extent :=
  (((render s.1 part).1, s.2 ++ [⟨part, (render s.1 part).2⟩]), (render s.1 part).2)

/-- A run through parts, from a dirty set and a renderer's state to those behind it: a part with
    nothing dirty is skipped, another is rendered, and clean then along with all that the pass
    covers. -/
inductive Sweep (render : σ → Extent → σ × Extent) :
    ExtentSet → σ → List Extent → List Pass → ExtentSet → σ → Prop
  | done (d : ExtentSet) (s : σ) : Sweep render d s [] [] d s
  | skip {d d' : ExtentSet} {s s' : σ} {part : Extent} {parts : List Extent} {passes : List Pass}
      (hclean : d.overlaps part = false) (rest : Sweep render d s parts passes d' s') :
      Sweep render d s (part :: parts) passes d' s'
  | pass {d d' : ExtentSet} {s s' : σ} {part : Extent} {parts : List Extent} {passes : List Pass}
      (hdirty : d.overlaps part = true)
      (rest : Sweep render ((d.erase part).erase (render s part).2) (render s part).1 parts passes
        d' s') :
      Sweep render d s (part :: parts) (⟨part, (render s part).2⟩ :: passes) d' s'

/-- A part that is clean is skipped. -/
theorem refreshPart_of_clean (h : t.dirty.overlaps part = false) (count : Nat) :
    refreshPart render (t, s, count) part = (t, s, count) := by
  simp [refreshPart, h]

/-- A part with something dirty is rendered. -/
theorem refreshPart_of_dirty (h : t.dirty.overlaps part = true) (count : Nat) :
    refreshPart render (t, s, count) part =
      ({ t with
          dirty := (t.dirty.erase part).erase (render s part).2
          renders := t.renders + 1 },
        (render s part).1, count + 1) := by
  simp [refreshPart, h]

/-- **Refreshing part by part is a sweep**, and the renderer sees its passes one after the other.
    It counts them, and leaves what is requested alone. -/
theorem exists_sweep (render : σ → Extent → σ × Extent) (parts : List Extent) (t : Staleness)
    (s : σ) (log : List Pass) (count : Nat) :
    ∃ passes d' s', Sweep render t.dirty s parts passes d' s' ∧
      parts.foldl (refreshPart render) (t, s, count) =
        ({ t with dirty := d', renders := t.renders + passes.length }, s',
          count + passes.length) ∧
      parts.foldl (refreshPart (recorded render)) (t, (s, log), count) =
        ({ t with dirty := d', renders := t.renders + passes.length }, (s', log ++ passes),
          count + passes.length) := by
  induction parts generalizing t s log count with
  | nil =>
      refine ⟨[], t.dirty, s, .done _ _, rfl, ?_⟩
      rw [List.append_nil]
      rfl
  | cons part rest ih =>
      rw [List.foldl_cons, List.foldl_cons]
      -- both renderers get the same answer, so both runs branch alike
      by_cases hover : t.dirty.overlaps part = true
      · rw [refreshPart_of_dirty hover, refreshPart_of_dirty hover]
        obtain ⟨passes, d', s', hsweep, hplain, hrecorded⟩ :=
          ih { t with
            dirty := (t.dirty.erase part).erase (render s part).2
            renders := t.renders + 1 }
          (render s part).1 (log ++ [⟨part, (render s part).2⟩]) (count + 1)
        refine ⟨⟨part, (render s part).2⟩ :: passes, d', s', .pass hover hsweep, ?_, ?_⟩
        · rw [hplain, List.length_cons, Nat.add_right_comm, Nat.add_right_comm count]
          rfl
        · refine hrecorded.trans ?_
          rw [List.append_assoc, List.length_cons, Nat.add_right_comm,
            Nat.add_right_comm count]
          rfl
      · have hclean : t.dirty.overlaps part = false := Bool.eq_false_iff.2 hover
        rw [refreshPart_of_clean hclean, refreshPart_of_clean hclean]
        obtain ⟨passes, d', s', hsweep, hfolds⟩ := ih t s log count
        exact ⟨passes, d', s', .skip hclean hsweep, hfolds⟩

/-! ## What a sweep leaves, and whom it calls -/

namespace Sweep

variable {parts : List Extent} {passes before after : List Pass} {pass : Pass}

/-- The dirty set loses what the passes clean, and nothing else. -/
theorem mem_iff (h : Sweep render d s parts passes d' s') :
    x ∈ d' ↔ x ∈ d ∧ ∀ pass ∈ passes, ¬pass.Cleans x := by
  induction h with
  | done d s => simp
  | skip hclean rest ih => exact ih
  | pass hdirty rest ih =>
      rw [ih, ExtentSet.mem_erase, ExtentSet.mem_erase, List.forall_mem_cons, Pass.Cleans, not_or]
      simp only [and_assoc]

/-- A sweep keeps the dirty set in its stored form. -/
theorem canonical (h : Sweep render d s parts passes d' s') (hd : d.Canonical) :
    d'.Canonical := by
  induction h with
  | done d s => exact hd
  | skip hclean rest ih => exact ih hd
  | pass hdirty rest ih => exact ih ((hd.erase _).erase _)

/-- The passes are given parts of the sweep, in their order. -/
theorem sublist (h : Sweep render d s parts passes d' s') :
    (passes.map Pass.part).Sublist parts := by
  induction h with
  | done d s => exact .slnil
  | skip hclean rest ih => exact ih.cons _
  | pass hdirty rest ih => exact ih.cons_cons _

/-- A pass is given a part in which the passes before it have left something dirty. -/
theorem needed (h : Sweep render d s parts passes d' s') (hd : d.Canonical)
    (hpass : passes = before ++ pass :: after) :
    ∃ x ∈ pass.part, x ∈ d ∧ ∀ p ∈ before, ¬p.Cleans x := by
  induction h generalizing before with
  | done d s => exact absurd hpass.symm (List.append_ne_nil_of_right_ne_nil _ (List.cons_ne_nil _ _))
  | skip hclean rest ih => exact ih hd hpass
  | pass hdirty rest ih =>
      cases before with
      | nil =>
          obtain ⟨rfl, -⟩ := List.cons.inj hpass
          obtain ⟨x, hx, hpart⟩ := hd.overlaps_iff.1 hdirty
          exact ⟨x, hpart, hx, by simp⟩
      | cons first before =>
          obtain ⟨rfl, hrest⟩ := List.cons.inj hpass
          obtain ⟨x, hpart, hx, hleft⟩ := ih ((hd.erase _).erase _) hrest
          obtain ⟨hx, hcovered⟩ := ExtentSet.mem_erase.1 hx
          obtain ⟨hx, hfirst⟩ := ExtentSet.mem_erase.1 hx
          exact ⟨x, hpart, hx, List.forall_mem_cons.2 ⟨not_or.2 ⟨hfirst, hcovered⟩, hleft⟩⟩

/-- What is dirty in a part is rendered with it, or cleaned by a pass over an earlier part. -/
theorem reached (h : Sweep render d s parts passes d' s') (hd : d.Canonical)
    (horder : parts.Pairwise fun f g => f.stop < g.start) (hpart : part ∈ parts)
    (hin : x ∈ part) (hx : x ∈ d) :
    ∃ pass ∈ passes, x ∈ pass.part ∨ (pass.part.stop ≤ x ∧ x ∈ pass.covered) := by
  induction h with
  | done d s => exact absurd hpart List.not_mem_nil
  | @skip d d' s s' first parts passes hclean rest ih =>
      obtain ⟨-, horder⟩ := List.pairwise_cons.1 horder
      rcases List.mem_cons.1 hpart with rfl | hpart
      · exact absurd hx (hd.not_mem_of_not_overlaps hclean hin)
      · exact ih hd horder hpart hx
  | @pass d d' s s' first parts passes hdirty rest ih =>
      obtain ⟨hbefore, horder⟩ := List.pairwise_cons.1 horder
      rcases List.mem_cons.1 hpart with rfl | hpart
      · exact ⟨_, List.mem_cons_self, .inl hin⟩
      · have hlt : first.stop < part.start := hbefore part hpart
        have hstart : part.start ≤ x := hin.1
        by_cases hcovered : x ∈ (render s first).2
        · exact ⟨_, List.mem_cons_self, .inr ⟨by show first.stop ≤ x; omega, hcovered⟩⟩
        · have hfirst : x ∉ first := by
            intro hfirst
            have := hfirst.2
            omega
          have hleft : x ∈ (d.erase first).erase (render s first).2 :=
            ExtentSet.mem_erase.2 ⟨ExtentSet.mem_erase.2 ⟨hx, hfirst⟩, hcovered⟩
          obtain ⟨pass, hpass, hreached⟩ := ih ((hd.erase _).erase _) horder hpart hleft
          exact ⟨pass, List.mem_cons_of_mem _ hpass, hreached⟩

end Sweep

/-! ## Refreshes -/

/-- What the passes of a refresh of `e` do, from the dirty set before it to the one behind it. -/
structure Refreshed (d : ExtentSet) (e : Extent) (passes : List Pass) (d' : ExtentSet) : Prop where
  /-- Nothing in the range stays dirty. -/
  clean     : ∀ x ∈ e, x ∉ d'
  /-- The dirty set loses what the passes were given and what they covered. -/
  mem_iff   : ∀ x, x ∈ d' ↔ x ∈ d ∧ ∀ pass ∈ passes, ¬pass.Cleans x
  /-- They were given full parts of the range, dirty to begin with. -/
  stale     : ∀ pass ∈ passes, pass.part.start < pass.part.stop ∧ ∀ x ∈ pass.part, x ∈ e ∧ x ∈ d
  /-- They were given them in order, and apart. -/
  ascending : passes.Pairwise fun p q => p.part.stop < q.part.start
  /-- Each had something in it that those before had left dirty. -/
  needed    : ∀ before pass after, passes = before ++ pass :: after →
    ∃ x ∈ pass.part, x ∈ d ∧ ∀ p ∈ before, ¬p.Cleans x
  /-- What was dirty in the range was given to a pass, or covered by one for a part before it. -/
  reached   : ∀ x ∈ e, x ∈ d →
    ∃ pass ∈ passes, x ∈ pass.part ∨ (pass.part.stop ≤ x ∧ x ∈ pass.covered)

/-- A sweep of all parts of a range refreshes it. -/
theorem Sweep.refreshed {passes : List Pass}
    (h : Sweep render d s (d.within e) passes d' s') (hd : d.Canonical) :
    Refreshed d e passes d' := by
  obtain ⟨hparts, hmem⟩ := hd.within e
  have hreached : ∀ x ∈ e, x ∈ d →
      ∃ pass ∈ passes, x ∈ pass.part ∨ (pass.part.stop ≤ x ∧ x ∈ pass.covered) := by
    intro x he hx
    obtain ⟨part, hpart, hin⟩ := hd.exists_part hx he
    exact h.reached hd hparts.apart hpart hin hx
  refine ⟨?_, fun x => h.mem_iff, ?_, ?_, fun _ _ _ hpass => h.needed hd hpass, hreached⟩
  · intro x he hx'
    obtain ⟨hx, hkept⟩ := h.mem_iff.1 hx'
    obtain ⟨pass, hpass, hin | ⟨-, hcovered⟩⟩ := hreached x he hx
    · exact hkept pass hpass (.inl hin)
    · exact hkept pass hpass (.inr hcovered)
  · intro pass hpass
    have hpart : pass.part ∈ d.within e := h.sublist.subset (List.mem_map_of_mem hpass)
    refine ⟨hparts.full _ hpart, ?_⟩
    intro x hx
    exact ((hmem x).1 ⟨pass.part, hpart, hx⟩).symm
  · exact List.pairwise_map.1 (hparts.apart.sublist h.sublist)

/-- In the states of use the dirty offsets are in the stored form. -/
theorem Reachable.canonical (h : t.Reachable) : t.dirty.Canonical := by
  induction h with
  | fresh => exact ExtentSet.canonical_empty
  | mark _ e ih => exact ih.insert e
  | request _ _ ih => exact ih
  | clearRequested _ ih => exact ih
  | clearDirty => exact ExtentSet.canonical_empty
  | @refresh t _ e σ render s ih =>
      obtain ⟨passes, d', s', hsweep, hrun, -⟩ :=
        exists_sweep render (t.dirty.within e) t s [] 0
      rw [Staleness.refresh, hrun]
      exact hsweep.canonical ih
  | afterInsert _ pos count ih => exact ih.afterInsert pos count
  | afterDelete _ start stop ih => exact ih.afterDelete start stop

/-- **A refresh renders what is stale, and nothing twice.**  Whatever the renderer answers, it is
    called for dirty parts of the range only, and all that was dirty there is clean afterwards
    (`Refreshed`).  The calls are counted, what is requested stays as it is, and to refresh the
    range again, with any renderer, takes no call. -/
theorem Reachable.refreshes (h : t.Reachable) (e : Extent) (render : σ → Extent → σ × Extent)
    (s : σ) :
    ∃ passes : List Pass,
      t.refresh e (recorded render) (s, []) =
        ((t.refresh e render s).1, ((t.refresh e render s).2.1, passes), passes.length) ∧
      (t.refresh e render s).2.2 = passes.length ∧
      (t.refresh e render s).1.renders = t.renders + passes.length ∧
      (t.refresh e render s).1.requested = t.requested ∧
      Refreshed t.dirty e passes (t.refresh e render s).1.dirty ∧
      ∀ (τ : Type) (again : τ → Extent → τ × Extent) (r : τ),
        (t.refresh e render s).1.refresh e again r = ((t.refresh e render s).1, r, 0) := by
  obtain ⟨passes, d', s', hsweep, hrun, hrecorded⟩ :=
    exists_sweep render (t.dirty.within e) t s [] 0
  rw [List.nil_append, Nat.zero_add] at hrecorded
  rw [Nat.zero_add] at hrun
  have hrefreshed : Refreshed t.dirty e passes d' := hsweep.refreshed h.canonical
  have hagain : d'.within e = [] :=
    ExtentSet.within_eq_nil fun x hx he => hrefreshed.clean x he hx
  rw [Staleness.refresh, Staleness.refresh, hrun, hrecorded]
  refine ⟨passes, rfl, rfl, rfl, rfl, hrefreshed, ?_⟩
  intro τ again r
  show (d'.within e).foldl (refreshPart again) (_, r, 0) = _
  rw [hagain]
  rfl

/-- Three stale ranges. -/
def threeRanges : Staleness := ((({} : Staleness).mark ⟨0, 10⟩).mark ⟨20, 30⟩).mark ⟨50, 60⟩

theorem reachable_threeRanges : threeRanges.Reachable := ((Reachable.fresh.mark _).mark _).mark _

/-- A renderer that covers more than it is given when it is first called, and later answers a
    reversed extent. -/
def farThenReversed (calls : Nat) (part : Extent) : Nat × Extent :=
  (calls + 1, if calls = 0 then ⟨part.start, 35⟩ else ⟨9, 3⟩)

/-- The first pass covers the second range as well, so the next one is for the third. -/
theorem refreshes_threeRanges :
    threeRanges.Reachable ∧
      threeRanges.refresh ⟨5, 55⟩ (recorded farThenReversed) (0, []) =
        ({ dirty := ⟨[⟨0, 5⟩, ⟨55, 60⟩]⟩, renders := 2 },
          (2, [⟨⟨5, 10⟩, ⟨5, 35⟩⟩, ⟨⟨50, 55⟩, ⟨9, 3⟩⟩]), 2) ∧
      Refreshed threeRanges.dirty ⟨5, 55⟩ [⟨⟨5, 10⟩, ⟨5, 35⟩⟩, ⟨⟨50, 55⟩, ⟨9, 3⟩⟩]
        ⟨[⟨0, 5⟩, ⟨55, 60⟩]⟩ := by
  have hrun : threeRanges.refresh ⟨5, 55⟩ (recorded farThenReversed) (0, []) =
      ({ dirty := ⟨[⟨0, 5⟩, ⟨55, 60⟩]⟩, renders := 2 },
        (2, [⟨⟨5, 10⟩, ⟨5, 35⟩⟩, ⟨⟨50, 55⟩, ⟨9, 3⟩⟩]), 2) := by decide
  obtain ⟨passes, hrecorded, -, -, -, hrefreshed, -⟩ :=
    reachable_threeRanges.refreshes ⟨5, 55⟩ farThenReversed 0
  rw [hrun] at hrecorded
  obtain ⟨hstate, hcalls⟩ := Prod.mk.inj hrecorded
  obtain ⟨⟨-, hpasses⟩, -⟩ := (Prod.mk.inj hcalls).imp_left Prod.mk.inj
  rw [← hstate, ← hpasses] at hrefreshed
  exact ⟨reachable_threeRanges, hrun, hrefreshed⟩

end Staleness

end Highlighter
