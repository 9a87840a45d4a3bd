import Highlighter.Extent
import Highlighter.Regex.Footprint
import Highlighter.Regex.Place
import Highlighter.Regex.Reader

/-! # Regular expressions — matching by an ordered search

    A match that starts at a position is the first one that the program of the expression
    leads to when it tries what it prefers first and comes back to the rest when that fails.
    A fork that was reached at a position before is not tried there again: it has failed, or
    is still being tried.  A search takes the least start that has a match; what failed from
    one start fails from the next ones too, so that it is tried only once. -/

namespace Highlighter

/-- A regular expression, ready to be matched. -/
structure Regex where
  program : Array Instruction
  deriving DecidableEq, Repr, Inhabited

namespace Regex

/-- The expression that a pattern is written for; none when the pattern is not well formed or the
    expression is too large. -/
def ofString? (pattern : String) : Option Regex :=
  (Expression.ofPattern? pattern).bind fun e =>
    if Footprint.fits e then some { program := e.program } else none

variable (text : Array Char)

/-- The char just before a position. -/
def charBefore? : Nat → Option Char
  | 0 => none
  | p + 1 => text[p]?

/-- Tries places in order until one leads to the end of the program: where the match ends, and
    the forks seen by then. -/
def explore (program : Array Instruction) (places : List Place) (seen : Std.HashSet Place) :
    Option Nat × Std.HashSet Place :=
  match places with
  | [] => (none, seen)
  | (i, p) :: rest =>
    match h : program[i]? with
    | none => explore program rest seen
    | some .accept => (some p, seen)
    | some (.chars s) =>
      if text[p]?.any s.contains then explore program ((i + 1, p + 1) :: rest) seen
      else explore program rest seen
    | some (.anchor a) =>
      if a.holds (charBefore? text p) text[p]? then explore program ((i + 1, p) :: rest) seen
      else explore program rest seen
    | some (.fork distances) =>
      if _new : seen.contains (i, p) ∨ text.size < p then explore program rest seen
      else explore program (branches i p distances ++ rest) (seen.insert (i, p))
  termination_by (unseen text program seen, ahead program places)
  decreasing_by
    case _ => exact .right _ (ahead_tail program)
    case _ => exact .right _ (ahead_step program h)
    case _ => exact .right _ (ahead_tail program)
    case _ => exact .right _ (ahead_step program h)
    case _ => exact .right _ (ahead_tail program)
    case _ => exact .right _ (ahead_tail program)
    case _ =>
      obtain ⟨hunseen, hp⟩ := not_or.1 _new
      exact .left _ _ (unseen_insert text
        ((mem_allPlaces text).2 ⟨lt_size_of_getElem? h, Nat.not_lt.1 hp⟩)
        (Bool.eq_false_iff.2 hunseen))

/-- The end of the match that starts at a position. -/
def endAt? (r : Regex) (p : Nat) : Option Nat := (explore text r.program [(0, p)] {}).1

/-- The match with the least start among those of the `n` starts from `p` on that `may` begin one,
    past forks that were seen without leading to a match. -/
@[specialize] def findAmong (may : Nat → Bool) (r : Regex) :
    (n p : Nat) → (seen : Std.HashSet Place) → Option Extent
  | 0, _, _ => none
  | n + 1, p, seen =>
    if may p then
      match explore text r.program [(0, p)] seen with
      | (some q, _) => some ⟨p, q⟩
      | (none, seen) => findAmong may r n (p + 1) seen
    else findAmong may r n (p + 1) seen

/-- The match with the least start at or after `p`. -/
def find? (r : Regex) (p : Nat) : Option Extent :=
  findAmong text (fun _ => true) r (text.size + 1 - p) p {}

/-! ## Heads -/

/-- For the first, second and further chars of every match from an instruction on, sets of which
    one holds the char; no more of them than are settled within `depth` instructions. -/
def heads (program : Array Instruction) : (depth i : Nat) → List (List CharSet)
  | 0, _ => []
  | depth + 1, i =>
    match program[i]? with
    | none | some .accept => []
    | some (.chars s) => [s] :: heads program depth (i + 1)
    | some (.anchor _) => heads program depth (i + 1)
    | some (.fork []) => []
    | some (.fork (d :: ds)) =>
      (ds.map fun d => heads program depth ((i : Int) + d).toNat).foldl (List.zipWith (· ++ ·))
        (heads program depth ((i : Int) + d).toNat)

/-- The chars from a position on are in the sets of a head. -/
def begins : (head : List (List CharSet)) → (p : Nat) → Bool
  | [], _ => true
  | sets :: head, p => (text[p]?.any fun c => sets.any (·.contains c)) && begins head (p + 1)

/-- The search of `find?`, which passes by the starts that a head rules out.  The most common heads
    are told from the other chars without going through their sets. -/
def findBegun (head : List (List CharSet)) (r : Regex) (p : Nat) : Option Extent :=
  match head with
  | [⟨[(lo, hi)]⟩] :: rest =>
    findAmong text (fun q => (text[q]?.any fun c => lo ≤ c.toNat && c.toNat ≤ hi) &&
      begins text rest (q + 1)) r (text.size + 1 - p) p {}
  | [⟨[(lo, hi)]⟩, ⟨[(lo', hi')]⟩] :: rest =>
    findAmong text (fun q => (text[q]?.any fun c =>
        lo ≤ c.toNat && c.toNat ≤ hi || lo' ≤ c.toNat && c.toNat ≤ hi') &&
      begins text rest (q + 1)) r (text.size + 1 - p) p {}
  | head => findAmong text (begins text head) r (text.size + 1 - p) p {}

end Regex

end Highlighter
