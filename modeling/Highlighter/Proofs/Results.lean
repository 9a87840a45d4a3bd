import Mathlib.Data.List.Forall2

/-! # Results — steps that may fail, one after the other

    A chain of such steps gives what the last one gives when all of them succeed, and
    otherwise the failure of the first that does not.  Over a list this is a relation item
    by item (`mapM_eq_ok_iff`) or the first item that fails (`mapM_eq_error_iff`), also
    where a loop keeps nothing of what the steps give (`forIn_eq_mapM`). -/

namespace Highlighter

variable {ε α β : Type}

section Bind

variable {m : Except ε α} {f : α → Except ε β}

/-- Two steps succeed when both do, the second with what the first gives. -/
theorem bind_eq_ok_iff {b : β} : (m >>= f) = .ok b ↔ ∃ a, m = .ok a ∧ f a = .ok b := by
  cases m with
  | error e =>
      show Except.error e = .ok b ↔ _
      simp
  | ok a =>
      show f a = .ok b ↔ _
      simp

/-- Two steps fail when the first does, or the second with what the first gives. -/
theorem bind_eq_error_iff {e : ε} :
    (m >>= f) = .error e ↔ m = .error e ∨ ∃ a, m = .ok a ∧ f a = .error e := by
  cases m with
  | error e' =>
      show Except.error e' = .error e ↔ _
      simp
  | ok a =>
      show f a = .error e ↔ _
      simp

end Bind

section Lists

variable {f : α → Except ε β} {l : List α}

/-- The step fails for an item of the list, with this failure, and for none before it. -/
def FailsFirst (f : α → Except ε β) (l : List α) (e : ε) : Prop :=
  ∃ before x after, l = before ++ x :: after ∧ (∀ y ∈ before, ∃ b, f y = .ok b) ∧ f x = .error e

theorem not_failsFirst_nil {e : ε} : ¬FailsFirst f [] e := by
  rintro ⟨before, x, after, heq, -⟩
  exact List.append_ne_nil_of_right_ne_nil before (List.cons_ne_nil x after) heq.symm

/-- The first failure is at the head, or behind a head that succeeds. -/
theorem failsFirst_cons {x : α} {e : ε} :
    FailsFirst f (x :: l) e ↔ f x = .error e ∨ (∃ b, f x = .ok b) ∧ FailsFirst f l e := by
  constructor
  · rintro ⟨before, y, after, heq, hbefore, hy⟩
    -- what fails is the first item, or something behind it
    cases before with
    | nil =>
        obtain ⟨rfl, rfl⟩ := List.cons.inj heq
        exact .inl hy
    | cons first before =>
        obtain ⟨rfl, rfl⟩ := List.cons.inj heq
        obtain ⟨hfirst, hbefore⟩ := List.forall_mem_cons.1 hbefore
        exact .inr ⟨hfirst, before, y, after, rfl, hbefore, hy⟩
  · rintro (hx | ⟨hx, before, y, after, rfl, hbefore, hy⟩)
    · exact ⟨[], x, l, rfl, fun y hy => absurd hy List.not_mem_nil, hx⟩
    · exact ⟨x :: before, y, after, rfl, List.forall_mem_cons.2 ⟨hx, hbefore⟩, hy⟩

/-- A list of steps gives, item by item, what the steps give. -/
theorem mapM_eq_ok_iff {bs : List β} :
    l.mapM f = .ok bs ↔ List.Forall₂ (fun x b => f x = .ok b) l bs := by
  induction l generalizing bs with
  | nil =>
      show Except.ok [] = .ok bs ↔ _
      rw [Except.ok.injEq, List.forall₂_nil_left_iff, eq_comm]
  | cons x l ih =>
      rw [List.mapM_cons, bind_eq_ok_iff, List.forall₂_cons_left_iff]
      simp only [bind_eq_ok_iff, ih]
      constructor
      · rintro ⟨b, hb, bs', hbs', heq⟩
        exact ⟨b, bs', hb, hbs', (Except.ok.inj heq).symm⟩
      · rintro ⟨b, bs', hb, hbs', rfl⟩
        exact ⟨b, hb, bs', hbs', rfl⟩

/-- Every item has a partner exactly when there is a list of partners. -/
theorem exists_forall₂_iff {R : α → β → Prop} :
    (∃ bs, List.Forall₂ R l bs) ↔ ∀ x ∈ l, ∃ b, R x b := by
  induction l with
  | nil => simp
  | cons x l ih =>
      rw [List.forall_mem_cons, ← ih]
      simp only [List.forall₂_cons_left_iff]
      constructor
      · rintro ⟨-, b, bs, hb, hbs, -⟩
        exact ⟨⟨b, hb⟩, bs, hbs⟩
      · rintro ⟨⟨b, hb⟩, bs, hbs⟩
        exact ⟨b :: bs, b, bs, hb, hbs, rfl⟩

/-- A list of steps succeeds when each of them does. -/
theorem exists_mapM_eq_ok_iff : (∃ bs, l.mapM f = .ok bs) ↔ ∀ x ∈ l, ∃ b, f x = .ok b := by
  simp only [mapM_eq_ok_iff, exists_forall₂_iff]

/-- The failure of a list of steps is that of the first one that fails. -/
theorem mapM_eq_error_iff {e : ε} : l.mapM f = .error e ↔ FailsFirst f l e := by
  induction l with
  | nil => exact iff_of_false nofun not_failsFirst_nil
  | cons x l ih =>
      rw [List.mapM_cons, bind_eq_error_iff, failsFirst_cons]
      refine or_congr_right ?_
      simp only [bind_eq_error_iff, ih]
      constructor
      · rintro ⟨b, hb, hrest | ⟨bs, -, heq⟩⟩
        · exact ⟨⟨b, hb⟩, hrest⟩
        · exact nomatch heq
      · rintro ⟨⟨b, hb⟩, hrest⟩
        exact ⟨b, hb, .inl hrest⟩

/-- A loop that keeps nothing of what its steps give fails as the list of them does. -/
theorem forIn_eq_mapM :
    (forIn l PUnit.unit fun x _ => do
      let _ ← f x
      pure (ForInStep.yield PUnit.unit)) = l.mapM f >>= fun _ => pure PUnit.unit := by
  induction l with
  | nil => rfl
  | cons x l ih =>
      rw [List.forIn_cons, List.mapM_cons]
      cases f x with
      | error e => rfl
      | ok b =>
          show (forIn l PUnit.unit fun x _ => do
            let _ ← f x
            pure (ForInStep.yield PUnit.unit)) = _
          rw [ih]
          cases l.mapM f <;> rfl

end Lists

end Highlighter
