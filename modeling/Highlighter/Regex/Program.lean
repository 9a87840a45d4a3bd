import Highlighter.Regex.Expression

/-! # Programs — expressions as instructions that are tried in order

    A program reads a text from a position on, one instruction after the other.  Where it can
    go on in more than one way it forks, and what comes first is preferred.  A repetition of
    what may match nothing tries a round before it decides whether to go on at all: a round
    that led back to where it began is then not tried again, but what comes after it is. -/

namespace Highlighter

/-- What a program does at a position. -/
inductive Instruction where
  /-- Takes one char of a set and goes on to the next instruction. -/
  | chars (s : CharSet)
  /-- Goes on to the next instruction where a condition holds. -/
  | anchor (a : Anchor)
  /-- Goes on to one of several instructions, best first, told by their distances. -/
  | fork (distances : List Int)
  /-- The text up to here matches. -/
  | accept
  deriving DecidableEq, Repr, Inhabited

namespace Instruction

/-- A fork that goes on rather than stops when greedy, and the other way round when lazy. -/
def goOnOrStop (greedy : Bool) (goOn stop : Int) : Instruction :=
  .fork (if greedy then [goOn, stop] else [stop, goOn])

/-- A part `n` times. -/
def copies (n : Nat) (part : List Instruction) : List Instruction :=
  (List.replicate n part).flatten

/-- One round or more. -/
def oneOrMore (part : List Instruction) (greedy : Bool) : List Instruction :=
  part ++ [goOnOrStop greedy (-part.length) 1]

/-- Any number of rounds.  Where a round may take nothing, whether to go on is asked anew after
    each round and not before it. -/
def anyNumber (part : List Instruction) (consumes greedy : Bool) : List Instruction :=
  let n : Int := part.length
  if consumes then goOnOrStop greedy 1 (n + 2) :: part ++ [.fork [-(n + 1)]]
  else goOnOrStop greedy 1 (n + 2) :: oneOrMore part greedy

/-- At most `n` rounds; to stop is to leave them all. -/
def atMost (part : List Instruction) (greedy : Bool) : (n : Nat) → List Instruction
  | 0 => []
  | n + 1 => goOnOrStop greedy 1 ((n + 1) * (part.length + 1)) :: part ++ atMost part greedy n

/-- Number of instructions of alternatives one behind another, with one more for each. -/
def totalLength : List (List Instruction) → Nat
  | [] => 0
  | part :: rest => part.length + 1 + totalLength rest

/-- Alternatives one behind another, of `total` length; each but the last one has a jump over
    those behind it. -/
def besides : (total : Nat) → List (List Instruction) → List Instruction
  | _, [] => []
  | _, [last] => last
  | total, part :: rest =>
    let behind := total - (part.length + 1)
    part ++ .fork [behind] :: besides behind rest

/-- The distances at which alternatives begin that lie one behind another from `d` on. -/
def starts (d : Int) : List (List Instruction) → List Int
  | [] => []
  | part :: rest => d :: starts (d + part.length + 1) rest

/-- A choice of alternatives, best first. -/
def choice : List (List Instruction) → List Instruction
  | [one] => one
  | parts => .fork (starts 1 parts) :: besides (totalLength parts) parts

/-- Rounds of a part. -/
def rounds (part : List Instruction) (consumes greedy : Bool) :
    (least : Nat) → (most : Option Nat) → List Instruction
  | 0, none => anyNumber part consumes greedy
  | n + 1, none => copies n part ++ oneOrMore part greedy
  | least, some most => copies least part ++ atMost part greedy (most - least)

/-- The instructions of the alternatives of an expression. -/
def alternatives : Expression → List (List Instruction)
  | .empty => [[]]
  | .literal cs => [cs.map fun c => .chars (.single c)]
  | .chars s => [[.chars s]]
  | .anchor a => [[.anchor a]]
  | .group _ e => [choice (alternatives e)]
  | .seq a b => [choice (alternatives a) ++ choice (alternatives b)]
  | .alt a b => choice (alternatives a) :: alternatives b
  | .rounds e least most greedy => [rounds (choice (alternatives e)) e.consumes greedy least most]

end Instruction

/-- The program of an expression. -/
def Expression.program (e : Expression) : Array Instruction :=
  (Instruction.choice (Instruction.alternatives e) ++ [Instruction.accept]).toArray

end Highlighter
