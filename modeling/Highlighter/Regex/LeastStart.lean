import Highlighter.Regex.Matcher

/-! # Least starts — what a search has seen does not change what it finds

    A place is alive when some way through the program leads from it to a match.  A search that
    ends without a match has seen no place that is alive, and places that are not alive do not
    change the outcome of a search that has seen them already.  So a search that goes from
    start to start and remembers what it has seen finds the least start that has a match, and
    the match that this start has by itself.

    The starts that a head rules out have no match (`begins_of_alive`), and so a search may pass
    them by (`find?_matcher`). -/

namespace Highlighter
namespace Regex

variable (text : Array Char) (program : Array Instruction)

/-! ## Ways through a program -/

/-- One place leads to another directly. -/
inductive Move : Place → Place → Prop where
  | chars {i p : Nat} {s : CharSet} (hi : program[i]? = some (.chars s))
      (hp : text[p]?.any s.contains = true) : Move (i, p) (i + 1, p + 1)
  | anchor {i p : Nat} {a : Anchor} (hi : program[i]? = some (.anchor a))
      (hp : a.holds (charBefore? text p) text[p]? = true) : Move (i, p) (i + 1, p)
  | fork {i p : Nat} {distances : List Int} {place : Place}
      (hi : program[i]? = some (.fork distances)) (hp : p ≤ text.size)
      (hmem : place ∈ branches i p distances) : Move (i, p) place

/-- Some way leads from a place to a match and goes on from no place to avoid. -/
inductive Leads (avoid : Place → Prop) : Place → Prop where
  | accept {i p : Nat} (hi : program[i]? = some .accept) : Leads avoid (i, p)
  | step {x y : Place} (hx : ¬avoid x) (hmove : Move text program x y) (hy : Leads avoid y) :
      Leads avoid x

/-- Some way leads from a place to a match. -/
def Alive (x : Place) : Prop := Leads text program (fun _ => False) x

variable {text program}

/-- A way that avoids places avoids fewer of them too. -/
theorem Leads.mono {avoid avoid' : Place → Prop} (hle : ∀ x, avoid' x → avoid x) {x : Place}
    (h : Leads text program avoid x) : Leads text program avoid' x := by
  induction h with
  | accept hi => exact .accept hi
  | step hx hmove _ ih => exact .step (fun h => hx (hle _ h)) hmove ih

/-- A way can avoid one more place, or what comes after its last visit there can. -/
theorem Leads.avoid_or {avoid : Place → Prop} (z : Place) {x : Place}
    (h : Leads text program avoid x) :
    Leads text program (fun y => avoid y ∨ y = z) x ∨
      ∃ y, Move text program z y ∧ Leads text program (fun y => avoid y ∨ y = z) y := by
  induction h with
  | accept hi => exact .inl (.accept hi)
  | @step x y hx hmove _ ih =>
      rcases ih with hy | hz
      · by_cases hxz : x = z
        · exact .inr ⟨y, hxz ▸ hmove, hy⟩
        · exact .inl (.step (not_or.2 ⟨hx, hxz⟩) hmove hy)
      · exact .inr hz

/-- A way that avoids only dead places avoids nothing. -/
theorem Alive.leads {avoid : Place → Prop} (hdead : ∀ x, avoid x → ¬Alive text program x)
    {x : Place} (h : Alive text program x) : Leads text program avoid x := by
  unfold Alive at h
  induction h with
  | accept hi => exact .accept hi
  | step hx hmove hy ih => exact .step (fun ha => hdead _ ha (.step hx hmove hy)) hmove ih

/-! ## Single steps of a search -/

variable (text program)

/-- The place ends a match. -/
def Accepts (x : Place) : Prop := program[x.1]? = some .accept

/-- The places that a search goes on to from a place. -/
def next (seen : Std.HashSet Place) (x : Place) : List Place :=
  match program[x.1]? with
  | some (.chars s) => if text[x.2]?.any s.contains then [(x.1 + 1, x.2 + 1)] else []
  | some (.anchor a) =>
    if a.holds (charBefore? text x.2) text[x.2]? then [(x.1 + 1, x.2)] else []
  | some (.fork distances) =>
    if seen.contains x ∨ text.size < x.2 then [] else branches x.1 x.2 distances
  | _ => []

/-- What a search has seen once it goes on from a place. -/
def marked (seen : Std.HashSet Place) (x : Place) : Std.HashSet Place :=
  match program[x.1]? with
  | some (.fork _) => if seen.contains x ∨ text.size < x.2 then seen else seen.insert x
  | _ => seen

variable {text program}

/-- A search ends at the first place that ends a match. -/
theorem explore_cons_of_accepts {seen : Std.HashSet Place} {x : Place} {rest : List Place}
    (h : Accepts program x) : explore text program (x :: rest) seen = (some x.2, seen) := by
  rw [explore]
  split <;> simp_all [Accepts]

/-- A search at another place goes on to the places behind it. -/
theorem explore_cons {seen : Std.HashSet Place} {x : Place} {rest : List Place}
    (h : ¬Accepts program x) : explore text program (x :: rest) seen =
      explore text program (next text program seen x ++ rest) (marked text program seen x) := by
  rw [explore]
  unfold next marked
  split <;> rename_i hi <;> simp only [hi]
  · rfl
  · exact absurd hi h
  · split <;> rfl
  · split <;> rfl
  · split <;> rfl

variable (text program)

/-- What holds of a search that has nothing left to try, or a match at hand, and is passed on from
    what a search goes on to, holds of every search. -/
theorem explore_induction {motive : List Place → Std.HashSet Place → Prop}
    (nil : ∀ seen, motive [] seen)
    (accept : ∀ x rest seen, Accepts program x → motive (x :: rest) seen)
    (step : ∀ x rest seen, ¬Accepts program x →
      motive (next text program seen x ++ rest) (marked text program seen x) →
      motive (x :: rest) seen)
    (places : List Place) (seen : Std.HashSet Place) : motive places seen := by
  induction places, seen using explore.induct text program with
  | case1 seen => exact nil seen
  | case2 seen i p rest hi ih =>
      exact step _ _ _ (by simp [Accepts, hi]) (by simpa [next, marked, hi])
  | case3 seen i p rest hi => exact accept _ _ _ hi
  | case4 seen i p rest s hi hp ih =>
      exact step _ _ _ (by simp [Accepts, hi]) (by simpa [next, marked, hi, hp])
  | case5 seen i p rest s hi hp ih =>
      exact step _ _ _ (by simp [Accepts, hi]) (by simpa [next, marked, hi, hp])
  | case6 seen i p rest a hi hp ih =>
      exact step _ _ _ (by simp [Accepts, hi]) (by simpa [next, marked, hi, hp])
  | case7 seen i p rest a hi hp ih =>
      exact step _ _ _ (by simp [Accepts, hi]) (by simpa [next, marked, hi, hp])
  | case8 seen i p rest distances hi hold ih =>
      exact step _ _ _ (by simp [Accepts, hi]) (by simpa only [next, marked, hi, if_pos hold])
  | case9 seen i p rest distances hi hnew ih =>
      exact step _ _ _ (by simp [Accepts, hi]) (by simpa only [next, marked, hi, if_neg hnew])

variable {text program}

/-- The places behind a place are those that it leads to. -/
theorem move_of_mem_next {seen : Std.HashSet Place} {x y : Place}
    (h : y ∈ next text program seen x) : Move text program x y := by
  unfold next at h
  split at h
  · split at h
    · obtain rfl := List.mem_singleton.1 h
      exact .chars (by assumption) (by assumption)
    · exact absurd h List.not_mem_nil
  · split at h
    · obtain rfl := List.mem_singleton.1 h
      exact .anchor (by assumption) (by assumption)
    · exact absurd h List.not_mem_nil
  · split at h
    · exact absurd h List.not_mem_nil
    · rename_i hnew
      exact .fork (by assumption) (Nat.not_lt.1 (not_or.1 hnew).2) h
  · exact absurd h List.not_mem_nil

/-- The places that a place leads to come behind it, unless it has been seen. -/
theorem mem_next_of_move {seen : Std.HashSet Place} {x y : Place} (hx : x ∉ seen)
    (h : Move text program x y) : y ∈ next text program seen x := by
  unfold next
  cases h with
  | chars hi hp => simp [hi, hp]
  | anchor hi hp => simp [hi, hp]
  | fork hi hp hmem =>
      have hnew : ¬(seen.contains (_, _) ∨ text.size < _) :=
        not_or.2 ⟨fun h => hx (Std.HashSet.mem_iff_contains.2 h), Nat.not_lt.2 hp⟩
      simpa only [hi, if_neg hnew]

/-- The place is one that a search remembers. -/
def Forks (text : Array Char) (program : Array Instruction) (x : Place) : Prop :=
  (∃ distances, program[x.1]? = some (.fork distances)) ∧ x.2 ≤ text.size

/-- A search remembers the forks it has been to. -/
theorem mem_marked {seen : Std.HashSet Place} {x y : Place} :
    y ∈ marked text program seen x ↔ y ∈ seen ∨ (y = x ∧ Forks text program x) := by
  unfold marked
  split
  · rename_i distances hi
    split
    · rename_i hold
      refine ⟨.inl, ?_⟩
      rintro (h | ⟨rfl, -, hp⟩)
      · exact h
      · exact Std.HashSet.mem_iff_contains.2 (hold.resolve_right (Nat.not_lt.2 hp))
    · rename_i hnew
      have hp : x.2 ≤ text.size := Nat.not_lt.1 (not_or.1 hnew).2
      rw [Std.HashSet.mem_insert, beq_iff_eq]
      constructor
      · rintro (rfl | h)
        · exact .inr ⟨rfl, ⟨distances, hi⟩, hp⟩
        · exact .inl h
      · rintro (h | ⟨rfl, -⟩)
        · exact .inr h
        · exact .inl rfl
  · rename_i hi
    refine ⟨.inl, ?_⟩
    rintro (h | ⟨rfl, ⟨distances, hfork⟩, -⟩)
    · exact h
    · exact absurd hfork (hi distances)

/-- What leads to something alive is alive. -/
theorem Move.alive {x y : Place} (h : Move text program x y) (hy : Alive text program y) :
    Alive text program x := .step (fun h => h) h hy

theorem alive_of_mem_next {seen : Std.HashSet Place} {x y : Place}
    (h : y ∈ next text program seen x) (hy : Alive text program y) : Alive text program x :=
  (move_of_mem_next h).alive hy

/-! ## Searches without a match -/

/-- If there is anything alive, some place still to be tried leads to a match past what has been
    seen. -/
def Covered (text : Array Char) (program : Array Instruction) (places : List Place)
    (seen : Std.HashSet Place) : Prop :=
  (∃ x, (x ∈ places ∨ x ∈ seen) ∧ Alive text program x) →
    ∃ x ∈ places, Leads text program (· ∈ seen) x

theorem Leads.not_avoid {avoid : Place → Prop} {x : Place} (h : ¬Accepts program x)
    (hleads : Leads text program avoid x) : ¬avoid x := by
  cases hleads with
  | accept hi => exact absurd hi h
  | step hx _ _ => exact hx

/-- A step of a search keeps it covered. -/
theorem Covered.step {x : Place} {rest : List Place} {seen : Std.HashSet Place}
    (h : ¬Accepts program x) (hcov : Covered text program (x :: rest) seen) :
    Covered text program (next text program seen x ++ rest) (marked text program seen x) := by
  rintro ⟨y, hy, halive⟩
  have hold : ∃ z, (z ∈ x :: rest ∨ z ∈ seen) ∧ Alive text program z := by
    rcases hy with hy | hy
    · rcases List.mem_append.1 hy with hy | hy
      · exact ⟨x, .inl List.mem_cons_self, alive_of_mem_next hy halive⟩
      · exact ⟨y, .inl (List.mem_cons_of_mem x hy), halive⟩
    · rcases mem_marked.1 hy with hy | ⟨rfl, -⟩
      · exact ⟨y, .inr hy, halive⟩
      · exact ⟨y, .inl List.mem_cons_self, halive⟩
  obtain ⟨z, hz, hleads⟩ := hcov hold
  by_cases hx : x ∈ seen
  · have hzx : z ≠ x := fun hzx => (hzx ▸ hleads : Leads text program _ x).not_avoid h hx
    refine ⟨z, List.mem_append_right _ ((List.mem_cons.1 hz).resolve_left hzx), ?_⟩
    exact hleads.mono fun w hw => (mem_marked.1 hw).elim id fun hwx => hwx.1 ▸ hx
  · have hmono : ∀ w, w ∈ marked text program seen x → w ∈ seen ∨ w = x :=
      fun w hw => (mem_marked.1 hw).imp id And.left
    rcases hleads.avoid_or x with hleads | ⟨w, hmove, hleads⟩
    · have hzx : z ≠ x :=
        fun hzx => (hzx ▸ hleads : Leads text program _ x).not_avoid h (.inr rfl)
      exact ⟨z, List.mem_append_right _ ((List.mem_cons.1 hz).resolve_left hzx),
        hleads.mono hmono⟩
    · exact ⟨w, List.mem_append_left _ (mem_next_of_move hx hmove), hleads.mono hmono⟩

/-- A search that finds no match has had nothing alive to try, and has seen nothing alive. -/
theorem dead_of_explore {places : List Place} {seen : Std.HashSet Place} :
    Covered text program places seen → (explore text program places seen).1 = none →
      (∀ x, x ∈ places ∨ x ∈ seen → ¬Alive text program x) ∧
        ∀ x ∈ (explore text program places seen).2, ¬Alive text program x := by
  induction places, seen using explore_induction text program with
  | nil seen =>
      intro hcov _
      have hdead : ∀ x, x ∈ [] ∨ x ∈ seen → ¬Alive text program x := by
        intro x hx halive
        obtain ⟨y, hy, -⟩ := hcov ⟨x, hx, halive⟩
        exact absurd hy List.not_mem_nil
      rw [explore]
      exact ⟨hdead, fun x hx => hdead x (.inr hx)⟩
  | accept x rest seen h =>
      intro _ hnone
      rw [explore_cons_of_accepts h] at hnone
      exact absurd hnone (Option.some_ne_none _)
  | step x rest seen h ih =>
      intro hcov hnone
      rw [explore_cons h] at hnone ⊢
      obtain ⟨hdead, hseen⟩ := ih (hcov.step h) hnone
      have hold : ∀ y ∈ seen, ¬Alive text program y :=
        fun y hy => hdead y (.inr (mem_marked.2 (.inl hy)))
      refine ⟨?_, hseen⟩
      intro y hy
      rcases hy with hy | hy
      · rcases List.mem_cons.1 hy with rfl | hy
        · intro halive
          by_cases hx : y ∈ seen
          · exact hold y hx halive
          · cases halive with
            | accept hi => exact h hi
            | step _ hmove hz =>
                exact hdead _ (.inl (List.mem_append_left _ (mem_next_of_move hx hmove))) hz
        · exact hdead y (.inl (List.mem_append_right _ hy))
      · exact hold y hy

/-! ## What a search has seen -/

open Classical in
/-- The places that lead to a match. -/
noncomputable def alives (text : Array Char) (program : Array Instruction)
    (places : List Place) : List Place :=
  places.filter fun x => decide (Alive text program x)

open Classical in
theorem alives_cons_of_alive {x : Place} {rest : List Place} (h : Alive text program x) :
    alives text program (x :: rest) = x :: alives text program rest :=
  List.filter_cons_of_pos (decide_eq_true h)

/-- Places that lead to no match can be left out. -/
theorem alives_cons_of_dead {x : Place} {rest : List Place} (h : ¬Alive text program x) :
    alives text program (x :: rest) = alives text program rest :=
  List.filter_cons_of_neg (by simpa using h)

open Classical in
/-- What comes after a dead place is dead. -/
theorem alives_next_append {seen : Std.HashSet Place} {x : Place} {rest : List Place}
    (h : ¬Alive text program x) :
    alives text program (next text program seen x ++ rest) = alives text program rest := by
  have hnone : alives text program (next text program seen x) = [] :=
    List.filter_eq_nil_iff.2 fun y hy halive =>
      h (alive_of_mem_next hy (of_decide_eq_true halive))
  unfold alives at hnone ⊢
  rw [List.filter_append, hnone, List.nil_append]

/-- Two searches have seen the same of what leads to a match. -/
def Agree (text : Array Char) (program : Array Instruction) (seen seen' : Std.HashSet Place) :
    Prop :=
  ∀ x, Alive text program x → (x ∈ seen ↔ x ∈ seen')

/-- Places that lead to no match make no difference to what has been seen. -/
theorem Agree.marked_dead {seen : Std.HashSet Place} {x : Place} (h : ¬Alive text program x) :
    Agree text program (marked text program seen x) seen := fun y hy => by
  rw [mem_marked]
  exact or_iff_left fun hyx => h (hyx.1 ▸ hy)

/-- A search comes to the first place alive, unless there is none. -/
theorem explore_alives (places : List Place) (seen : Std.HashSet Place) :
    (alives text program places = [] → (explore text program places seen).1 = none) ∧
      ∀ x tail, alives text program places = x :: tail →
        ∃ rest seen', (explore text program places seen).1 =
            (explore text program (x :: rest) seen').1 ∧
          alives text program rest = tail ∧ Agree text program seen' seen := by
  induction places, seen using explore_induction text program with
  | nil seen =>
      refine ⟨fun _ => by rw [explore], ?_⟩
      intro x tail h
      exact absurd h (List.cons_ne_nil x tail).symm
  | accept x rest seen h =>
      rw [alives_cons_of_alive (.accept h)]
      refine ⟨fun h => absurd h (List.cons_ne_nil _ _), ?_⟩
      intro y tail htail
      obtain ⟨rfl, rfl⟩ := List.cons.inj htail
      exact ⟨rest, seen, rfl, rfl, fun _ _ => Iff.rfl⟩
  | step x rest seen h ih =>
      by_cases halive : Alive text program x
      · rw [alives_cons_of_alive halive]
        refine ⟨fun h => absurd h (List.cons_ne_nil _ _), ?_⟩
        intro y tail htail
        obtain ⟨rfl, rfl⟩ := List.cons.inj htail
        exact ⟨rest, seen, rfl, rfl, fun _ _ => Iff.rfl⟩
      · rw [explore_cons h, alives_cons_of_dead halive]
        rw [alives_next_append halive] at ih
        refine ⟨ih.1, ?_⟩
        intro y tail htail
        obtain ⟨rest', seen', heq, hrest, hagree⟩ := ih.2 y tail htail
        exact ⟨rest', seen', heq, hrest,
          fun z hz => (hagree z hz).trans (Agree.marked_dead halive z hz)⟩

/-- Where a search goes on to depends only on whether it has seen the place. -/
theorem next_congr {seen seen' : Std.HashSet Place} {x : Place} (h : x ∈ seen ↔ x ∈ seen') :
    next text program seen x = next text program seen' x := by
  have hcontains : seen.contains x = seen'.contains x := by
    rw [Bool.eq_iff_iff]
    exact h
  unfold next
  rw [hcontains]

/-- What a search finds depends on what it has seen only as far as that leads to a match. -/
theorem explore_congr {places places' : List Place} {seen seen' : Std.HashSet Place}
    (hplaces : alives text program places = alives text program places')
    (hseen : Agree text program seen seen') :
    (explore text program places seen).1 = (explore text program places' seen').1 := by
  induction places, seen using explore_induction text program generalizing places' seen' with
  | nil seen =>
      rw [explore, (explore_alives places' seen').1 hplaces.symm]
  | accept x rest seen h =>
      rw [alives_cons_of_alive (.accept h)] at hplaces
      obtain ⟨rest', seen'', heq, -⟩ := (explore_alives places' seen').2 _ _ hplaces.symm
      rw [heq, explore_cons_of_accepts h, explore_cons_of_accepts h]
  | step x rest seen h ih =>
      rw [explore_cons h]
      by_cases halive : Alive text program x
      · rw [alives_cons_of_alive halive] at hplaces
        obtain ⟨rest', seen'', heq, hrest, hagree⟩ :=
          (explore_alives places' seen').2 _ _ hplaces.symm
        have hboth : Agree text program seen seen'' :=
          fun y hy => (hseen y hy).trans (hagree y hy).symm
        rw [heq, explore_cons h, ← next_congr (hboth x halive)]
        refine ih ?_ ?_
        · unfold alives at hrest ⊢
          rw [List.filter_append, List.filter_append, hrest]
        · intro y hy
          rw [mem_marked, mem_marked, hboth y hy]
      · rw [alives_cons_of_dead halive] at hplaces
        refine ih ((alives_next_append halive).trans hplaces) ?_
        intro y hy
        exact (Agree.marked_dead halive y hy).trans (hseen y hy)

/-! ## Heads -/

theorem begins_zipWith {head head' : List (List CharSet)} {p : Nat}
    (h : begins text head p = true ∨ begins text head' p = true) :
    begins text (List.zipWith (· ++ ·) head head') p = true := by
  induction head generalizing head' p with
  | nil => rfl
  | cons sets head ih =>
      cases head' with
      | nil => rfl
      | cons sets' head' =>
          simp only [begins, List.zipWith_cons_cons, Bool.and_eq_true, Option.any_eq_true,
            List.any_append, Bool.or_eq_true] at h ⊢
          rcases h with ⟨⟨c, hc, hsets⟩, hhead⟩ | ⟨⟨c, hc, hsets⟩, hhead⟩
          · exact ⟨⟨c, hc, .inl hsets⟩, ih (.inl hhead)⟩
          · exact ⟨⟨c, hc, .inr hsets⟩, ih (.inr hhead)⟩

/-- What begins with one of some heads begins with what they have in common. -/
theorem begins_foldl {heads : List (List (List CharSet))} {head : List (List CharSet)} {p : Nat}
    (h : begins text head p = true ∨ ∃ head' ∈ heads, begins text head' p = true) :
    begins text (heads.foldl (List.zipWith (· ++ ·)) head) p = true := by
  induction heads generalizing head with
  | nil =>
      rcases h with h | ⟨head', hmem, -⟩
      · exact h
      · exact absurd hmem List.not_mem_nil
  | cons head₁ heads ih =>
      refine ih ?_
      rcases h with h | ⟨head', hmem, h⟩
      · exact .inl (begins_zipWith (.inl h))
      · rcases List.mem_cons.1 hmem with rfl | hmem
        · exact .inl (begins_zipWith (.inr h))
        · exact .inr ⟨head', hmem, h⟩

/-- **Every match begins with its head.** -/
theorem begins_of_alive {depth i p : Nat} (h : Alive text program (i, p)) :
    begins text (heads program depth i) p = true := by
  induction depth generalizing i p with
  | zero => rfl
  | succ depth ih =>
      rw [heads]
      cases h with
      | accept hi =>
          rw [hi]
          rfl
      | step _ hmove hnext =>
          cases hmove with
          | chars hi hp =>
              rw [hi]
              simp only [begins, List.any_cons, List.any_nil, Bool.or_false, Bool.and_eq_true]
              exact ⟨hp, ih hnext⟩
          | anchor hi hp =>
              rw [hi]
              exact ih hnext
          | @fork i p distances place hi hp hmem =>
              obtain ⟨d, hd, rfl⟩ := List.mem_map.1 hmem
              have hhead := ih hnext
              rw [hi]
              cases distances with
              | nil => rfl
              | cons d' ds =>
                  refine begins_foldl ?_
                  rcases List.mem_cons.1 hd with rfl | hd
                  · exact .inl hhead
                  · exact .inr ⟨_, List.mem_map_of_mem hd, hhead⟩

/-- Where no way leads to a match there is none. -/
theorem endAt?_eq_none_of_dead {r : Regex} {p : Nat} (h : ¬Alive text r.program (0, p)) :
    endAt? text r p = none :=
  (explore_alives [(0, p)] {}).1 (alives_cons_of_dead h)

/-! ## Least starts -/

/-- The search that remembers finds what trying each start by itself finds. -/
theorem findAmong_eq_findSome? {may : Nat → Bool} (r : Regex) (n p : Nat)
    (hmay : ∀ q, Alive text r.program (0, q) → may q = true) {seen : Std.HashSet Place}
    (hdead : ∀ x ∈ seen, ¬Alive text r.program x) :
    findAmong text may r n p seen =
      (List.range' p n).findSome? fun q => (endAt? text r q).map (Extent.mk q) := by
  induction n generalizing p seen with
  | zero => rfl
  | succ n ih =>
      rw [List.range'_succ, List.findSome?_cons, findAmong]
      by_cases hbegun : may p = true
      · have hsame : (explore text r.program [(0, p)] seen).1 = endAt? text r p :=
          explore_congr rfl fun x hx =>
            ⟨fun h => absurd hx (hdead x h), fun h => absurd h Std.HashSet.not_mem_empty⟩
        have hcov : Covered text r.program [(0, p)] seen := by
          rintro ⟨x, hx, halive⟩
          have hx := hx.resolve_right fun h => hdead x h halive
          exact ⟨x, hx, halive.leads hdead⟩
        rw [← hsame, if_pos hbegun]
        split
        · rename_i q seen' heq
          rw [heq, Option.map_some]
        · rename_i seen' heq
          have hseen := (dead_of_explore hcov (by rw [heq])).2
          rw [heq] at hseen ⊢
          exact ih (p + 1) hseen
      · have hnone : endAt? text r p = none :=
          endAt?_eq_none_of_dead fun halive => hbegun (hmay p halive)
        rw [if_neg hbegun, hnone]
        exact ih (p + 1) hdead

/-- A search that passes by no start with a match finds the least such start, and the match that it
    has by itself. -/
theorem findAmong_size_eq {may : Nat → Bool} (r : Regex) (p : Nat)
    (hmay : ∀ q, Alive text r.program (0, q) → may q = true) :
    findAmong text may r (text.size + 1 - p) p {} =
      (List.range' p (text.size + 1 - p)).findSome? fun q => (endAt? text r q).map (Extent.mk q) :=
  findAmong_eq_findSome? r _ p hmay fun _ h => absurd h Std.HashSet.not_mem_empty

/-- A search finds the least start that has a match by itself, and that match. -/
theorem find?_eq_findSome? (r : Regex) (p : Nat) :
    find? text r p = (List.range' p (text.size + 1 - p)).findSome? fun q =>
      (endAt? text r q).map (Extent.mk q) :=
  findAmong_size_eq r p fun _ _ => rfl

/-! ## The matcher of an expression -/

/-- A range has the chars between its ends. -/
theorem contains_range (lo hi : Nat) (c : Char) :
    CharSet.contains ⟨[(lo, hi)]⟩ c = (decide (lo ≤ c.toNat) && decide (c.toNat ≤ hi)) := by
  rw [Bool.eq_iff_iff]
  simp [CharSet.contains, CharSet.inRanges]

/-- The matcher finds what the expression does. -/
theorem find?_matcher (r : Regex) (text : Array Char) (p : Nat) :
    r.matcher.find? text p = r.find? text p := by
  have hbegins : ∀ q, Alive text r.program (0, q) → begins text (heads r.program 6 0) q = true :=
    fun q h => begins_of_alive h
  rw [find?_eq_findSome?]
  show findBegun text (heads r.program 6 0) r p = _
  generalize heads r.program 6 0 = head at hbegins
  unfold findBegun
  split
  · refine findAmong_size_eq r p ?_
    intro q hq
    have hhead := hbegins q hq
    simp only [begins, List.any_cons, List.any_nil, Bool.or_false, contains_range] at hhead
    exact hhead
  · refine findAmong_size_eq r p ?_
    intro q hq
    have hhead := hbegins q hq
    simp only [begins, List.any_cons, List.any_nil, Bool.or_false, contains_range] at hhead
    exact hhead
  · exact findAmong_size_eq r p hbegins

/-- What a search from a position finds there is what matches there by itself. -/
theorem endAt?_matcher {r : Regex} {p : Nat} (hp : p ≤ text.size) :
    r.matcher.endAt? text p = r.endAt? text p := by
  obtain ⟨n, hn⟩ : ∃ n, text.size + 1 - p = n + 1 := ⟨text.size - p, by omega⟩
  rw [Matcher.endAt?, find?_matcher, find?_eq_findSome?, hn, List.range'_succ, List.findSome?_cons]
  cases hend : endAt? text r p with
  | some q => simp
  | none =>
      rw [Option.map_none]
      cases hlater : (List.range' (p + 1) n).findSome? fun q => (endAt? text r q).map (Extent.mk q) with
      | none => rfl
      | some m =>
          -- what is found later begins later
          obtain ⟨q, hq, hm⟩ := List.exists_of_findSome?_eq_some hlater
          obtain ⟨stop, -, rfl⟩ := Option.map_eq_some_iff.1 hm
          have hlt := (List.mem_range'_1.1 hq).1
          exact if_neg (by simp only; omega)

/-- Past the end nothing matches. -/
theorem endAt?_matcher_past {r : Regex} {p : Nat} (hp : text.size < p) :
    r.matcher.endAt? text p = none := by
  cases h : r.matcher.endAt? text p with
  | none => rfl
  | some q =>
      have := Matcher.endAt?_bounds h
      omega

end Regex

end Highlighter
