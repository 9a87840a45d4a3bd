import Highlighter.Regex.Program
import Std.Data.HashSet

/-! # Places — where a search can be in a program and in the text

    A search steps from place to place.  Between two forks it goes forward in the program, and
    at a fork it goes on only from a place that it has not seen.  Both bounds together say
    that it ends. -/

namespace Highlighter
namespace Regex

variable (text : Array Char)

/-- An instruction, by its number, at a position of the text. -/
abbrev Place := Nat × Nat

/-- Every place of a program in the text. -/
def allPlaces (program : Array Instruction) : List Place :=
  (List.range program.size).flatMap fun i => (List.range (text.size + 1)).map fun p => (i, p)

/-- Number of places that have not been seen. -/
def unseen (program : Array Instruction) (seen : Std.HashSet Place) : Nat :=
  (allPlaces text program).countP fun place => !seen.contains place

/-- A bound for the steps from some places on until each of them forks or ends. -/
def ahead (program : Array Instruction) : (places : List Place) → Nat
  | [] => 0
  | place :: rest => program.size - place.1 + 1 + ahead program rest

/-- The places are pairs of an instruction and a position in the text. -/
theorem mem_allPlaces {program : Array Instruction} {i p : Nat} :
    (i, p) ∈ allPlaces text program ↔ i < program.size ∧ p ≤ text.size := by
  simp only [allPlaces, List.mem_flatMap, List.mem_map, List.mem_range, Prod.mk.injEq]
  constructor
  · rintro ⟨_, hi, _, hp, rfl, rfl⟩
    exact ⟨hi, Nat.lt_succ_iff.1 hp⟩
  · rintro ⟨hi, hp⟩
    exact ⟨i, hi, p, Nat.lt_succ_iff.2 hp, rfl, rfl⟩

/-- To see a new place leaves fewer to be seen. -/
theorem unseen_insert {program : Array Instruction} {seen : Std.HashSet Place} {place : Place}
    (hmem : place ∈ allPlaces text program) (hnew : seen.contains place = false) :
    unseen text program (seen.insert place) < unseen text program seen := by
  unfold unseen
  generalize allPlaces text program = places at hmem
  have hle : ∀ l : List Place, (l.countP fun x => !(seen.insert place).contains x) ≤
      l.countP fun x => !seen.contains x :=
    fun l => List.countP_mono_left fun x _ hx => by
      simp only [Std.HashSet.contains_insert, Bool.not_or, Bool.and_eq_true] at hx
      exact hx.2
  induction places with
  | nil => exact absurd hmem List.not_mem_nil
  | cons x xs ih =>
      rw [List.countP_cons, List.countP_cons, Std.HashSet.contains_insert]
      by_cases hx : place = x
      · have hxs := hle xs
        rw [← hx, hnew, beq_self_eq_true]
        exact Nat.lt_succ_of_le hxs
      · have hxs := ih ((List.mem_cons.1 hmem).resolve_left hx)
        rw [beq_eq_false_iff_ne.2 hx, Bool.false_or]
        exact Nat.add_lt_add_right hxs _

theorem lt_size_of_getElem? {α : Type} {as : Array α} {i : Nat} {a : α} (h : as[i]? = some a) :
    i < as.size := (Array.getElem?_eq_some_iff.1 h).1

/-- Without the first place there is less ahead. -/
theorem ahead_tail (program : Array Instruction) {place : Place} {rest : List Place} :
    ahead program rest < ahead program (place :: rest) := by
  rw [ahead]
  omega

/-- A step past an instruction leaves less ahead. -/
theorem ahead_step (program : Array Instruction) {i p q : Nat} {instruction : Instruction}
    {rest : List Place} (h : program[i]? = some instruction) :
    ahead program ((i + 1, q) :: rest) < ahead program ((i, p) :: rest) := by
  have := lt_size_of_getElem? h
  rw [ahead, ahead]
  omega

/-- The places that a fork leads to. -/
def branches (i p : Nat) (distances : List Int) : List Place :=
  distances.map fun d => (((i : Int) + d).toNat, p)

end Regex

end Highlighter
