import Highlighter.Proofs.FirstFrom
import Highlighter.Proofs.Lines

/-! # Line-local patterns — a match is a matter of its line

    A pattern is line-local when its match at a position depends only on the char before
    and on the rest of the line, and never takes the newline.  Analysis in batches is
    faithful for such patterns only.

    The syntactic side: a program that takes no newline and asks only for conditions that
    see an end of the text as a newline (`staysInLine`) is line-local.  The route is a
    simulation of two searches, place by place, over positions that see the same. -/

namespace Highlighter

/-- The matcher is lawful, and its match at a position depends only on the char before it and on
    the rest of its line, and does not go past that. -/
structure Matcher.LineLocal (r : Matcher) : Prop extends r.Lawful where
  within  : ∀ {text : Array Char} {p q : Nat}, p ≤ text.size → r.endAt? text p = some q →
    q ≤ lineStop text p
  depends : ∀ {text text' : Array Char} {p p' : Nat}, p ≤ text.size → p' ≤ text'.size →
    SameLine text p text' p' →
      (r.endAt? text p).map (· - p) = (r.endAt? text' p').map (· - p')

/-! ## Programs that stay in their line -/

/-- The condition sees an end of the text as a newline. -/
def Anchor.seesLine : Anchor → Bool
  | .lineStart | .lineEnd | .word _ _ => true
  | .textStart | .textEnd | .crlfLineStart | .crlfLineEnd => false

/-- The instruction takes no newline and tells no end of the text from one. -/
def Instruction.staysInLine : Instruction → Bool
  | .chars s => !s.contains '\n'
  | .anchor a => a.seesLine
  | .fork _ | .accept => true

/-- Every instruction of the program stays in its line. -/
def Regex.staysInLine (r : Regex) : Bool := r.program.all Instruction.staysInLine

theorem Chars.isWord_newline : Chars.isWord '\n' = false := by decide

theorem Chars.isAsciiWord_newline : Chars.isAsciiWord '\n' = false := by decide

/-- A class without the newline holds of no char as of a newline. -/
theorem any_eq_of_getD_eq {f : Char → Bool} (hf : f '\n' = false) {c c' : Option Char}
    (h : c.getD '\n' = c'.getD '\n') : c.any f = c'.any f := by
  have hany : ∀ c : Option Char, c.any f = f (c.getD '\n') := by
    intro c
    cases c with
    | none => exact hf.symm
    | some c => rfl
  rw [hany, hany, h]

/-- A condition that sees lines holds alike where the chars around are the same. -/
theorem Anchor.holds_congr {a : Anchor} (ha : a.seesLine = true)
    {before before' after after' : Option Char}
    (hbefore : before.getD '\n' = before'.getD '\n')
    (hafter : after.getD '\n' = after'.getD '\n') :
    a.holds before after = a.holds before' after' := by
  -- an end and a newline are one and the same to a line anchor
  have hedge : ∀ c : Option Char, (c.isNone || c == some '\n') = (c.getD '\n' == '\n') := by
    intro c
    cases c with
    | none => rfl
    | some c => rfl
  cases a with
  | textStart => exact absurd ha (by decide)
  | textEnd => exact absurd ha (by decide)
  | crlfLineStart => exact absurd ha (by decide)
  | crlfLineEnd => exact absurd ha (by decide)
  | lineStart =>
      show (before.isNone || before == some '\n') = (before'.isNone || before' == some '\n')
      rw [hedge, hedge, hbefore]
  | lineEnd =>
      show (after.isNone || after == some '\n') = (after'.isNone || after' == some '\n')
      rw [hedge, hedge, hafter]
  | word edge ascii =>
      have hword : (if ascii then Chars.isAsciiWord '\n' else Chars.isWord '\n') = false := by
        cases ascii
        · exact Chars.isWord_newline
        · exact Chars.isAsciiWord_newline
      have h1 := any_eq_of_getD_eq
        (f := fun c => if ascii then Chars.isAsciiWord c else Chars.isWord c) hword hbefore
      have h2 := any_eq_of_getD_eq
        (f := fun c => if ascii then Chars.isAsciiWord c else Chars.isWord c) hword hafter
      cases edge <;> simp only [holds, h1, h2]

namespace SameLine

variable {text text' : Array Char} {p p' : Nat}

/-- Any number of chars on, positions that see the same still do. -/
theorem add {i : Nat} (h : SameLine text p text' p') (hi : p + i ≤ lineStop text p) :
    SameLine text (p + i) text' (p' + i) := by
  induction i generalizing p p' with
  | zero => exact h
  | succ i ih =>
      rcases atLineEnd_or_char text p with hend | ⟨c, hc, hne⟩
      · rw [lineStop_of_atLineEnd hend] at hi
        omega
      · rw [lineStop_of_char hc hne] at hi
        have := ih (h.succ hc hne) (by omega)
        rwa [Nat.add_assoc, Nat.add_assoc, Nat.add_comm 1 i] at this

theorem getD_eq (h : SameLine text p text' p') : text[p]?.getD '\n' = text'[p']?.getD '\n' := by
  rcases atLineEnd_or_char text p with hend | ⟨c, hc, hne⟩
  · have hend' := h.atLineEnd hend
    rcases hend with hend | hend <;> rcases hend' with hend' | hend' <;> rw [hend, hend'] <;> rfl
  · rw [hc, h.char hc hne]

/-- Positions that see the same line are as far from its end. -/
theorem lineStop_eq (h : SameLine text p text' p') :
    lineStop text' p' = p' + (lineStop text p - p) := by
  unfold lineStop
  rw [h.rest]
  omega

end SameLine

theorem lineStop_le_size {text : Array Char} {p : Nat} (hp : p ≤ text.size) :
    lineStop text p ≤ text.size :=
  lineStop_le hp (.inl (Array.getElem?_eq_none_iff.2 (Nat.le_refl _)))

/-! ## Two searches side by side -/

namespace Regex

variable {text text' : Array Char} {program : Array Instruction} {p p' : Nat}

/-- The place at the same distance from `p'` as the given one is from `p`. -/
def mirror (p p' : Nat) (x : Place) : Place := (x.1, p' + (x.2 - p))

/-- The place lies between `p` and the end of its line. -/
def OnLine (text : Array Char) (p : Nat) (x : Place) : Prop := p ≤ x.2 ∧ x.2 ≤ lineStop text p

/-- Places at the same distances on lines that look the same see the same line. -/
theorem OnLine.sameLine {x : Place} (hx : OnLine text p x) (h : SameLine text p text' p') :
    SameLine text x.2 text' (mirror p p' x).2 := by
  have hadd : p + (x.2 - p) = x.2 := Nat.add_sub_cancel' hx.1
  have := h.add (i := x.2 - p) (by rw [hadd]; exact hx.2)
  rwa [hadd] at this

/-- Two searches have seen places at the same distances. -/
def SeenAlike (text : Array Char) (p p' : Nat) (seen seen' : Std.HashSet Place) : Prop :=
  ∀ x, OnLine text p x → (x ∈ seen ↔ mirror p p' x ∈ seen')

/-- Places on the line have mirror places of their own. -/
theorem mirror_inj {x y : Place} (hx : OnLine text p x) (hy : OnLine text p y)
    (h : mirror p p' x = mirror p p' y) : x = y := by
  obtain ⟨h1, h2⟩ := Prod.mk.inj h
  have := hx.1
  have := hy.1
  exact Prod.ext h1 (by omega)

/-- A search that stays in its line goes on to places on the line. -/
theorem next_onLine (hprogram : program.all Instruction.staysInLine = true)
    {seen : Std.HashSet Place} {x y : Place} (hx : OnLine text p x)
    (hy : y ∈ next text program seen x) : OnLine text p y := by
  cases move_of_mem_next hy with
  | @chars i q s hi hp =>
      -- a char of the set is none of the end of the line
      have hs : s.contains '\n' = false := by
        have := Array.all_eq_true'.1 hprogram _ (Array.mem_of_getElem? hi)
        simpa [Instruction.staysInLine] using this
      rcases atLineEnd_or_char text q with hend | ⟨c, hc, hne⟩
      · rcases hend with hend | hend <;> rw [hend] at hp
        · exact absurd hp (by simp)
        · rw [Option.any_some, hs] at hp
          exact absurd hp (by decide)
      · have hstop : lineStop text q = lineStop text p := lineStop_eq hx.1 hx.2
        have hnext : q + 1 ≤ lineStop text (q + 1) := le_lineStop (q + 1)
        rw [← lineStop_of_char hc hne, hstop] at hnext
        exact ⟨Nat.le_succ_of_le hx.1, hnext⟩
  | anchor hi hp => exact hx
  | fork hi hp hmem =>
      obtain ⟨d, -, rfl⟩ := List.mem_map.1 hmem
      exact hx

/-- A step from places at the same distances leads to places at the same distances. -/
theorem next_mirror (hprogram : program.all Instruction.staysInLine = true)
    (hp : p ≤ text.size) (hp' : p' ≤ text'.size) (hsame : SameLine text p text' p')
    {seen seen' : Std.HashSet Place} (hseen : SeenAlike text p p' seen seen')
    {x : Place} (hx : OnLine text p x) :
    next text' program seen' (mirror p p' x) = (next text program seen x).map (mirror p p') := by
  have hsee := hx.sameLine hsame
  have hsize : x.2 ≤ text.size := Nat.le_trans hx.2 (lineStop_le_size hp)
  have hsize' : (mirror p p' x).2 ≤ text'.size := by
    have h1 := lineStop_le_size hp'
    have h2 := hx.2
    have h3 := hx.1
    rw [hsame.lineStop_eq] at h1
    show p' + (x.2 - p) ≤ text'.size
    omega
  have hsub : x.2 + 1 - p = x.2 - p + 1 := by
    have := hx.1
    omega
  have hplace : (mirror p p' x).1 = x.1 := rfl
  unfold next
  rw [hplace]
  cases hi : program[x.1]? with
  | none => rfl
  | some instruction =>
      have hstays : instruction.staysInLine = true :=
        Array.all_eq_true'.1 hprogram _ (Array.mem_of_getElem? hi)
      cases instruction with
      | accept => rfl
      | chars s =>
          have hs : s.contains '\n' = false := by simpa [Instruction.staysInLine] using hstays
          have hany := any_eq_of_getD_eq (f := s.contains) hs hsee.getD_eq
          simp only [← hany]
          split
          · simp only [List.map_cons, List.map_nil, mirror, hsub]
            rfl
          · rfl
      | anchor a =>
          have ha : a.seesLine = true := hstays
          have hholds : a.holds (charBefore? text x.2) text[x.2]? =
              a.holds (charBefore? text' (mirror p p' x).2) text'[(mirror p p' x).2]? :=
            Anchor.holds_congr ha hsee.before hsee.getD_eq
          simp only [← hholds]
          split <;> rfl
      | fork distances =>
          have hcontains : seen'.contains (mirror p p' x) = seen.contains x := by
            rw [Bool.eq_iff_iff]
            exact (hseen x hx).symm
          have hnot : ¬text.size < x.2 := Nat.not_lt.2 hsize
          have hnot' : ¬text'.size < (mirror p p' x).2 := Nat.not_lt.2 hsize'
          simp only [hcontains, hnot, hnot', or_false]
          split
          · rfl
          · simp only [branches, List.map_map]
            rfl

/-- What two searches have seen stays alike. -/
theorem SeenAlike.marked (hp : p ≤ text.size) (hp' : p' ≤ text'.size)
    (hsame : SameLine text p text' p') {seen seen' : Std.HashSet Place}
    (hseen : SeenAlike text p p' seen seen') {x : Place} (hx : OnLine text p x) :
    SeenAlike text p p' (marked text program seen x)
      (marked text' program seen' (mirror p p' x)) := by
  intro y hy
  have hforks : Forks text program x ↔ Forks text' program (mirror p p' x) := by
    have h1 := lineStop_le_size hp
    have h2 := lineStop_le_size hp'
    have h3 := hx.1
    have h4 := hx.2
    rw [hsame.lineStop_eq] at h2
    show _ ∧ _ ↔ _ ∧ p' + (x.2 - p) ≤ text'.size
    exact and_congr Iff.rfl ⟨fun _ => by omega, fun _ => by omega⟩
  have heq : y = x ↔ mirror p p' y = mirror p p' x :=
    ⟨fun h => h ▸ rfl, fun h => mirror_inj hy hx h⟩
  rw [mem_marked, mem_marked, hseen y hy, heq, hforks]

/-- Two searches through places at the same distances find matches of the same length, and inside
    the line. -/
theorem explore_mirror (hprogram : program.all Instruction.staysInLine = true)
    (hp : p ≤ text.size) (hp' : p' ≤ text'.size) (hsame : SameLine text p text' p')
    (places : List Place) (seen : Std.HashSet Place) :
    ∀ seen', SeenAlike text p p' seen seen' → (∀ x ∈ places, OnLine text p x) →
      (explore text' program (places.map (mirror p p')) seen').1 =
          (explore text program places seen).1.map (fun q => p' + (q - p)) ∧
        ∀ q, (explore text program places seen).1 = some q → q ≤ lineStop text p := by
  induction places, seen using explore_induction text program with
  | nil seen =>
      intro seen' _ _
      rw [List.map_nil, explore, explore]
      exact ⟨rfl, fun q hq => absurd hq (Option.some_ne_none q).symm⟩
  | accept x rest seen h =>
      intro seen' _ hplaces
      have hx := hplaces x List.mem_cons_self
      have h' : Accepts program (mirror p p' x) := h
      rw [List.map_cons, explore_cons_of_accepts h, explore_cons_of_accepts h']
      refine ⟨rfl, ?_⟩
      intro q hq
      obtain rfl := Option.some.inj hq
      exact hx.2
  | step x rest seen h ih =>
      intro seen' hseen hplaces
      have hx := hplaces x List.mem_cons_self
      have h' : ¬Accepts program (mirror p p' x) := h
      have hnext := next_mirror hprogram hp hp' hsame hseen hx
      have := ih _ (hseen.marked hp hp' hsame hx) fun y hy => by
        rcases List.mem_append.1 hy with hy | hy
        · exact next_onLine hprogram hx hy
        · exact hplaces y (List.mem_cons_of_mem x hy)
      rw [List.map_append, ← hnext] at this
      rw [List.map_cons, explore_cons h, explore_cons h']
      exact this

/-- **A program that stays in its line is line-local.** -/
theorem lineLocal_of_staysInLine {r : Regex} (h : r.staysInLine = true) :
    r.matcher.LineLocal := by
  have hempty : ∀ {text : Array Char} {p p' : Nat},
      SeenAlike text p p' ({} : Std.HashSet Place) {} := fun _ _ =>
    ⟨fun h => absurd h Std.HashSet.not_mem_empty, fun h => absurd h Std.HashSet.not_mem_empty⟩
  have hfirst : ∀ {text : Array Char} {p : Nat}, ∀ x ∈ [(0, p)], OnLine text p x := by
    intro text p x hx
    obtain rfl := List.mem_singleton.1 hx
    exact ⟨Nat.le_refl p, le_lineStop p⟩
  refine ⟨lawful_matcher r, fun {text p q} hp hq => ?_, fun {text text' p p'} hp hp' hsame => ?_⟩
  · rw [endAt?_matcher hp] at hq
    exact (explore_mirror h hp hp ⟨rfl, rfl⟩ [(0, p)] {} {} hempty hfirst).2 q hq
  · have := (explore_mirror h hp hp' hsame [(0, p)] {} {} hempty hfirst).1
    have hmirror : [(0, p)].map (mirror p p') = [(0, p')] := by
      show [(0, p' + (p - p))] = [(0, p')]
      rw [Nat.sub_self, Nat.add_zero]
    rw [hmirror] at this
    rw [endAt?_matcher hp, endAt?_matcher hp']
    show (endAt? text r p).map _ = (explore text' r.program [(0, p')] {}).1.map _
    rw [this, Option.map_map]
    refine congrArg (fun f => Option.map f (endAt? text r p)) (funext ?_)
    intro q
    show q - p = p' + (q - p) - p'
    rw [Nat.add_sub_cancel_left]

end Regex

/-- The matcher is that of an expression whose program stays in its line. -/
def Matcher.StaysInLine (m : Matcher) : Prop := ∃ r : Regex, m = r.matcher ∧ r.staysInLine = true

/-- A matcher that stays in its line is line-local. -/
theorem Matcher.StaysInLine.lineLocal {m : Matcher} (h : m.StaysInLine) : m.LineLocal := by
  obtain ⟨r, rfl, hr⟩ := h
  exact Regex.lineLocal_of_staysInLine hr

end Highlighter
