import Highlighter.Chars.Set
import Highlighter.Regex.Anchor

/-! # Expressions — the form of a regular expression

    An expression is kept in a simple form by the functions that build it: neighbouring
    literals are one literal, sequences and alternatives do not hold their own kind, and
    alternatives of single chars are a char set.  Alternatives that all begin with the same
    elements share these; what they try first is then settled once for all of them. -/

namespace Highlighter

/-- Regular expressions over chars. -/
inductive Expression where
  /-- Matches the empty text. -/
  | empty
  /-- Matches one text. -/
  | literal (cs : List Char)
  /-- Matches one char of a set. -/
  | chars (s : CharSet)
  /-- Matches the empty text where a condition holds. -/
  | anchor (a : Anchor)
  /-- A numbered group. -/
  | group (number : Nat) (e : Expression)
  /-- One after the other.  The first is no sequence itself. -/
  | seq (first rest : Expression)
  /-- The first if it leads to a match, else the rest.  The first is no choice itself. -/
  | alt (first rest : Expression)
  /-- At least `least` and at most `most` rounds; without `most`, any number. -/
  | rounds (e : Expression) (least : Nat) (most : Option Nat) (greedy : Bool)
  deriving DecidableEq, Repr, Inhabited

namespace Expression

/-! ## Lengths -/

/-- The least length of a match; none where a part can match nothing at all. -/
def leastLength? : Expression → Option Nat
  | .empty | .anchor _ => some 0
  | .literal cs => some cs.length
  | .chars s => if s.isEmpty then none else some 1
  | .group _ e => e.leastLength?
  | .seq a b => do return (← a.leastLength?) + (← b.leastLength?)
  | .alt a b => do return min (← a.leastLength?) (← b.leastLength?)
  | .rounds e least _ _ => do return (← e.leastLength?) * least

/-- The greatest length of a match; none where there is none. -/
def greatestLength? : Expression → Option Nat
  | .empty | .anchor _ => some 0
  | .literal cs => some cs.length
  | .chars s => if s.isEmpty then none else some 1
  | .group _ e => e.greatestLength?
  | .seq a b => do return (← a.greatestLength?) + (← b.greatestLength?)
  | .alt a b => do return max (← a.greatestLength?) (← b.greatestLength?)
  | .rounds e _ most _ => do return (← e.greatestLength?) * (← most)

/-- Every match takes a char. -/
def consumes (e : Expression) : Bool := e.leastLength?.any (0 < ·)

/-! ## Sequences -/

/-- The elements of a sequence. -/
def items : Expression → List Expression
  | .empty => []
  | .seq a b => a :: b.items
  | e => [e]

def isSequence : Expression → Bool
  | .seq _ _ => true
  | _ => false

/-- Elements, of which none is a sequence or empty, one after another. -/
def ofItems : List Expression → Expression
  | [] => .empty
  | [e] => e
  | e :: es => .seq e (ofItems es)

/-- Puts an element before others; a literal joins one that comes next. -/
def joinItem (e : Expression) (es : List Expression) : List Expression :=
  match e, es with
  | .literal cs, .literal ds :: rest => .literal (cs ++ ds) :: rest
  | e, es => e :: es

/-- Expressions one after another. -/
def sequence (es : List Expression) : Expression :=
  ofItems ((es.flatMap items).foldr joinItem [])

/-! ## Choices -/

/-- The alternatives of a choice. -/
def branches : Expression → List Expression
  | .alt a b => a :: b.branches
  | e => [e]

/-- Alternatives, of which none is a choice. -/
def ofBranches : List Expression → Expression
  | [] => .chars .empty
  | [e] => e
  | e :: es => .alt e (ofBranches es)

/-- One char of a set; a set of one char is a literal. -/
def ofSet (s : CharSet) : Expression :=
  match s.single? with
  | some c => .literal [c]
  | none => .chars s

/-- The char that an expression stands for. -/
def single? : Expression → Option Char
  | .literal [c] => some c
  | _ => none

def set? : Expression → Option CharSet
  | .chars s => some s
  | _ => none

/-- The set that alternatives make up if all are single chars, or all are sets. -/
def merged? (bs : List Expression) : Option CharSet :=
  match bs.mapM single? with
  | some cs => some (.ofCodes (cs.map (·.toNat)))
  | none => (bs.mapM set?).map .unions

/-- The elements that two lists have in common at their start. -/
def commonStart : List Expression → List Expression → List Expression
  | a :: as, b :: bs => if a = b then a :: commonStart as bs else []
  | _, _ => []

/-- The elements that all alternatives begin with; none unless all are sequences. -/
def sharedStart : List Expression → List Expression
  | [] => []
  | b :: bs =>
    if (b :: bs).all isSequence then bs.foldl (fun shared b => commonStart shared b.items) b.items
    else []

/-- Alternatives in order, as a set where they make up one. -/
def plainChoice (es : List Expression) : Expression :=
  let bs := es.flatMap branches
  if bs.length ≤ 1 then ofBranches bs
  else
    match merged? bs with
    | some s => ofSet s
    | none => ofBranches bs

/-- Alternatives in order, with the elements that all of them begin with in front. -/
def choice (es : List Expression) : Expression :=
  let bs := es.flatMap branches
  let shared := sharedStart bs
  if bs.length ≤ 1 ∨ shared.isEmpty then plainChoice bs
  else
    let rests := bs.map fun b => sequence (b.items.drop shared.length)
    sequence (shared ++ [plainChoice rests])

/-! ## Repetitions -/

/-- A repetition.  What takes no char is not repeated more than once. -/
def repetition (e : Expression) (least : Nat) (most : Option Nat) (greedy : Bool) : Expression :=
  let idle := e.greatestLength? = some 0
  let least := if idle then min least 1 else least
  let most := if idle then some ((most.map (min · 1)).getD 1) else most
  if least = 0 ∧ most = some 0 then .empty
  else if least = 1 ∧ most = some 1 then e
  else .rounds e least most greedy

end Expression

end Highlighter
