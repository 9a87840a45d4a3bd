import Highlighter.Matcher
import Highlighter.Regex.Bounds

/-! # The matcher of a regular expression

    The searches of a regular expression keep the bounds of a matcher.  A pattern is compiled
    to one as long as it is well formed and not too large. -/

namespace Highlighter
namespace Regex

/-- Searches for the matches of an expression.  What its matches begin with is settled once. -/
def matcher (r : Regex) : Matcher :=
  let head := heads r.program 6 0
  ⟨fun text p => r.findBegun text head p, findBegun_bounds⟩

instance : Coe Regex Matcher := ⟨matcher⟩

/-- The matcher that a pattern is written for. -/
def compile? (pattern : String) : Option Matcher := (ofString? pattern).map matcher

variable {text : Array Char} {r : Regex} {p : Nat}

/-- A pattern that is read is compiled to the matcher of what is read. -/
theorem compile?_of_ofString? {pattern : String} (h : ofString? pattern = some r) :
    compile? pattern = some r.matcher := by
  rw [compile?, h, Option.map_some]

end Regex

end Highlighter
