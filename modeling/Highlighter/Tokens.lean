import Highlighter.Grammar

/-! # Tokens — flat patterns outside regions

    The patterns of a grammar compete for the text: the match with the least start wins,
    then the longer one, then the pattern declared first, and the search goes on from its
    end.  Each pattern keeps its next match at hand; after a token is taken only those
    that it has overtaken are searched again. -/

namespace Highlighter

/-- A match of the pattern with this number. -/
structure Token where
  pattern : Nat
  extent  : Extent
  deriving DecidableEq, Repr

variable (text : Array Char)

/-- The next match of at least one char at or after `p`. -/
def nextToken (r : Matcher) (p : Nat) : Option Extent :=
  match hm : r.find? text p with
  | none => none
  | some m => if m.isEmpty then nextToken r (m.start + 1) else some m
termination_by text.size + 1 - p
decreasing_by
  have := r.bounds hm
  omega

/-- One match is preferred to another: it starts earlier, or there and is longer. -/
def preferred (a b : Extent) : Bool :=
  a.start < b.start || (a.start == b.start && b.stop < a.stop)

/-- The best of the matches at hand, numbered from `i`; of equals the first. -/
def bestToken : (i : Nat) → List (Option Extent) → Option Token
  | _, [] => none
  | i, none :: rest => bestToken (i + 1) rest
  | i, some m :: rest =>
    match bestToken (i + 1) rest with
    | some t => if preferred t.extent m then some t else some ⟨i, m⟩
    | none => some ⟨i, m⟩

/-- The matches at hand once the text up to `p` is taken. -/
def refreshTokens (p : Nat) : List TokenDef → List (Option Extent) → List (Option Extent)
  | d :: ds, some m :: rest =>
    (if m.start < p then nextToken text d.regex p else some m) :: refreshTokens p ds rest
  | _ :: ds, none :: rest => none :: refreshTokens p ds rest
  | _, _ => []

/-- Takes the best token and goes on behind it, `room` times at most. -/
def takeTokens (defs : List TokenDef) : (room : Nat) → List (Option Extent) → List Token
  | 0, _ => []
  | room + 1, atHand =>
    match bestToken 0 atHand with
    | none => []
    | some t => t :: takeTokens defs room (refreshTokens text t.extent.stop defs atHand)

/-- The tokens from `p` on, in order.  A token has a char, so there are no more than chars. -/
def tokens (defs : List TokenDef) (p : Nat) : List Token :=
  takeTokens text defs (text.size - p) (defs.map fun d => nextToken text d.regex p)

end Highlighter
