import Highlighter.Regex

/-! # Bounds — a match lies between its start and the end of the text

    A program moves on in the text only over chars that it takes.  Hence a match does not stop
    before it starts, and a search answers a match at or after the position it is given. -/

namespace Highlighter
namespace Regex

variable {text : Array Char}

/-- A char that satisfies something lies inside the text. -/
theorem lt_size_of_any {p : Nat} {f : Char → Bool} (h : text[p]?.any f = true) :
    p < text.size := by
  obtain ⟨hp, -⟩ := (Option.any_eq_true_iff_get f _).1 h
  exact Array.getElem?_eq_some_iff.1 (Option.some_get hp).symm |>.1

/-- A search through places between `lo` and the end of the text ends there too. -/
theorem explore_bounds {program : Array Instruction} {places : List Place}
    {seen : Std.HashSet Place} {lo q : Nat}
    (hplaces : ∀ place ∈ places, lo ≤ place.2 ∧ place.2 ≤ text.size)
    (h : (explore text program places seen).1 = some q) : lo ≤ q ∧ q ≤ text.size := by
  fun_induction explore text program places seen with
  | case1 => simp at h
  | case2 _ _ _ _ _ ih => exact ih (List.forall_mem_cons.1 hplaces).2 h
  | case3 _ i p =>
      obtain rfl := Option.some.inj h
      exact hplaces (i, p) List.mem_cons_self
  | case4 _ i p rest s _ htaken ih =>
      obtain ⟨hp, hrest⟩ := List.forall_mem_cons.1 hplaces
      have hlt := lt_size_of_any htaken
      exact ih (List.forall_mem_cons.2 ⟨⟨Nat.le_succ_of_le hp.1, hlt⟩, hrest⟩) h
  | case5 _ _ _ _ _ _ _ ih => exact ih (List.forall_mem_cons.1 hplaces).2 h
  | case6 _ i p rest a _ _ ih =>
      exact ih (List.forall_mem_cons.2 (List.forall_mem_cons.1 hplaces)) h
  | case7 _ _ _ _ _ _ _ ih => exact ih (List.forall_mem_cons.1 hplaces).2 h
  | case8 _ _ _ _ _ _ _ ih => exact ih (List.forall_mem_cons.1 hplaces).2 h
  | case9 _ i p rest distances _ _ ih =>
      obtain ⟨hp, hrest⟩ := List.forall_mem_cons.1 hplaces
      refine ih ?_ h
      intro place hmem
      rcases List.mem_append.1 hmem with hnext | hold
      · obtain ⟨d, -, rfl⟩ := List.mem_map.1 hnext
        exact hp
      · exact hrest place hold

/-- A match ends where it begins or behind that, and inside the text. -/
theorem endAt?_bounds {r : Regex} {p q : Nat} (hp : p ≤ text.size)
    (h : endAt? text r p = some q) : p ≤ q ∧ q ≤ text.size :=
  explore_bounds (by simpa using hp) h

theorem findAmong_bounds {may : Nat → Bool} {r : Regex} {n p : Nat} {seen : Std.HashSet Place}
    {m : Extent} (hn : p + n ≤ text.size + 1) (h : findAmong text may r n p seen = some m) :
    p ≤ m.start ∧ m.start ≤ m.stop ∧ m.stop ≤ text.size := by
  induction n generalizing p seen with
  | zero => simp [findAmong] at h
  | succ n ih =>
      have hlater : ∀ seen, findAmong text may r n (p + 1) seen = some m →
          p ≤ m.start ∧ m.start ≤ m.stop ∧ m.stop ≤ text.size := by
        intro seen h
        have := ih (by omega) h
        omega
      unfold findAmong at h
      split at h
      · split at h
        · rename_i q _ hq
          obtain rfl := Option.some.inj h
          have hend : (explore text r.program [(0, p)] seen).1 = some q := by rw [hq]
          have hp : ∀ place ∈ [(0, p)], p ≤ place.2 ∧ place.2 ≤ text.size := by
            simp
            omega
          exact ⟨Nat.le_refl p, explore_bounds hp hend⟩
        · exact hlater _ h
      · exact hlater _ h

/-- A search answers a match at or after its position and inside the text. -/
theorem findAmong_size_bounds {may : Nat → Bool} {r : Regex} {p : Nat} {m : Extent}
    (h : findAmong text may r (text.size + 1 - p) p {} = some m) :
    p ≤ m.start ∧ m.start ≤ m.stop ∧ m.stop ≤ text.size := by
  by_cases hp : p ≤ text.size
  · exact findAmong_bounds (by omega) h
  · have hn : text.size + 1 - p = 0 := by omega
    rw [hn] at h
    simp [findAmong] at h

theorem findBegun_bounds {head : List (List CharSet)} {r : Regex} {p : Nat} {m : Extent}
    (h : findBegun text head r p = some m) :
    p ≤ m.start ∧ m.start ≤ m.stop ∧ m.stop ≤ text.size := by
  unfold findBegun at h
  split at h
  · exact findAmong_size_bounds h
  · exact findAmong_size_bounds h
  · exact findAmong_size_bounds h

end Regex

end Highlighter
