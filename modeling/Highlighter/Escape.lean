import Highlighter.Matcher

/-! # Escapes — searching past what is escaped

    A match is escaped when an odd number of escape chars stands right before it.  The
    search for one that is not resumes one char after the start of each that is. -/

namespace Highlighter

variable (text : Array Char)

/-- Length of the run of `escape` that ends just before `p`. -/
def escapeRun (escape : Char) : (p : Nat) → Nat
  | 0 => 0
  | p + 1 => if text[p]? = some escape then escapeRun escape p + 1 else 0

/-- An odd run of `escape` ends just before `p`. -/
def isEscaped (escape : Char) (p : Nat) : Bool := escapeRun text escape p % 2 == 1

/-- The first match at or after `p` that is not escaped. -/
def nextUnescaped (escape : Option Char) (r : Matcher) (p : Nat) : Option Extent :=
  match hm : r.find? text p with
  | none => none
  | some m =>
    if escape.any fun e => isEscaped text e m.start then nextUnescaped escape r (m.start + 1)
    else some m
termination_by text.size + 1 - p
decreasing_by
  have := r.bounds hm
  omega

variable {text}

/-- A match that is not escaped is one of the pattern's, and lies where it was sought. -/
theorem nextUnescaped_bounds {escape : Option Char} {r : Matcher} {p : Nat} {m : Extent}
    (h : nextUnescaped text escape r p = some m) :
    p ≤ m.start ∧ m.start ≤ m.stop ∧ m.stop ≤ text.size := by
  fun_induction nextUnescaped text escape r p with
  | case1 => simp at h
  | case2 p m' hm _ ih =>
      have h1 := r.bounds hm
      have h2 := ih h
      omega
  | case3 p m' hm _ =>
      obtain rfl := Option.some.inj h
      exact r.bounds hm

end Highlighter
