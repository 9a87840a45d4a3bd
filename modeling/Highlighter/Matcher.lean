import Highlighter.Extent

/-! # Matchers — what a search asks of a pattern

    A search asks a pattern for its next match at or after a position, and counts on no more
    than that the match lies between that position and the end of the text.  How patterns are
    written and matched is not its matter.

    Whether a match begins at a given position is asked by a search from there, which may find
    one that begins later instead (`Matcher.endAt?`).  The searches of a lawful matcher agree on
    what begins where (`Matcher.Lawful`): each finds the least start that has a match, and what
    matches there does not depend on where the search began. -/

namespace Highlighter

/-- A pattern that can be searched for. -/
structure Matcher where
  /-- The next match at or after a position. -/
  find?  : Array Char → Nat → Option Extent
  bounds : ∀ {text : Array Char} {p : Nat} {m : Extent}, find? text p = some m →
    p ≤ m.start ∧ m.start ≤ m.stop ∧ m.stop ≤ text.size

namespace Matcher

/-- Matches nowhere. -/
def never : Matcher := ⟨fun _ _ => none, nofun⟩

instance : Inhabited Matcher := ⟨never⟩

/-- The end of the match that begins at a position. -/
def endAt? (r : Matcher) (text : Array Char) (p : Nat) : Option Nat :=
  (r.find? text p).bind fun m => if m.start = p then some m.stop else none

variable {text : Array Char} {r : Matcher} {p q : Nat} {m : Extent}

/-- A match begins at a position when the search from there finds it there. -/
theorem endAt?_eq_some_iff : r.endAt? text p = some q ↔ r.find? text p = some ⟨p, q⟩ := by
  unfold endAt?
  rw [Option.bind_eq_some_iff]
  constructor
  · rintro ⟨⟨start, stop⟩, hm, hq⟩
    obtain ⟨hstart, hstop⟩ := Option.ite_none_right_eq_some.1 hq
    obtain rfl : start = p := hstart
    obtain rfl : stop = q := Option.some.inj hstop
    exact hm
  · intro h
    exact ⟨⟨p, q⟩, h, if_pos rfl⟩

/-- A search that finds a match where it begins has the end of that match. -/
theorem endAt?_of_find? (h : r.find? text p = some m) (hstart : m.start = p) :
    r.endAt? text p = some m.stop := by
  rw [endAt?, h, Option.bind_some, if_pos hstart]

/-- When a search from a position finds a later match, none begins there. -/
theorem endAt?_eq_none_of_ne (h : r.find? text p = some m) (hstart : m.start ≠ p) :
    r.endAt? text p = none := by
  rw [endAt?, h, Option.bind_some, if_neg hstart]

/-- A match ends where it begins or behind that, and inside the text. -/
theorem endAt?_bounds (h : r.endAt? text p = some q) : p ≤ q ∧ q ≤ text.size :=
  (r.bounds (endAt?_eq_some_iff.1 h)).2

/-- A search finds the least start that has a match, and the match that a search from there
    finds; it finds none when none begins from its position on. -/
structure Lawful (r : Matcher) : Prop where
  found  : ∀ {text : Array Char} {p : Nat} {m : Extent}, r.find? text p = some m →
    r.endAt? text m.start = some m.stop ∧ ∀ q, p ≤ q → q < m.start → r.endAt? text q = none
  missed : ∀ {text : Array Char} {p : Nat}, r.find? text p = none →
    ∀ q, p ≤ q → r.endAt? text q = none

end Matcher

end Highlighter
