import Mathlib.Data.List.Forall2
import Highlighter.Analysis
import Highlighter.Escape.Encoded

/-! # Encoded scans — region starts, steps and batches by byte offsets

    A scan takes a slice of a text from byte offset to byte offset, as its patterns do, and
    what it finds counts in chars of the whole text.  So a char number is turned into a byte
    offset where the scan begins, and each byte offset that it comes to into a char number:
    the chars are counted on from the byte offset that was asked for last.

    Of the patterns nothing is known but the functions that search for them, and a scan is a
    relation, as the search past escapes is. -/

namespace Highlighter
namespace Encoded

/-! ## Chars of a slice -/

/-- The byte offset of the char with a number; past the last char that of the end. -/
def byteOfChar : List Char → (chars : Nat) → Nat
  | [], _ => 0
  | _ :: _, 0 => 0
  | c :: cs, chars + 1 => c.utf8Size + byteOfChar cs chars

/-- The byte offset that was asked for last, and the number of chars before it. -/
structure CharCounter where
  byte  : Nat := 0
  chars : Nat := 0
  deriving DecidableEq, Repr

/-- The offset of the char at a byte offset of a slice, the first char of the slice having offset
    `base`; none inside the code of a char.  Only to go back is the count begun anew. -/
def CharCounter.charOffset? (c : CharCounter) (text : Array Char) (base byte : Nat) :
    Option (Nat × CharCounter) := do
  let byte := min byte (byteLength text)
  let c := if byte < c.byte then {} else c
  let (front, _) ← splitAt? text.toList byte
  let (_, passed) ← splitAt? front c.byte
  let chars := c.chars + passed.length
  return (base + chars, { byte, chars })

/-! ## Region starts -/

/-- The patterns of regions, each as the function that searches for it from a byte offset on. -/
structure Patterns where
  starts : List (Nat → Option Extent)
  stops  : List (Nat → Option Extent)
  merged : Option (Nat → Option Extent)
  escape : Option Char

section Searching

variable (ps : Patterns) (text : Array Char)

/-- The first place at or after a byte offset where some opening pattern matches unescaped. -/
inductive Candidate : (byte : Nat) → (answer : Option Nat) → Prop
  | merged {byte : Nat} {find : Nat → Option Extent} {asked : List Nat} {m : Option Extent}
      (hmerged : ps.merged = some find) (hsearch : Searches find text ps.escape byte asked m) :
      Candidate byte (m.map (·.start))
  | separate {byte : Nat} {ms : List (Option Extent)} (hmerged : ps.merged = none)
      (hsearches : List.Forall₂ (fun find m => ∃ asked, Searches find text ps.escape byte asked m)
        ps.starts ms) :
      Candidate byte (ms.filterMap (Option.map (·.start))).min?

/-- The first of the patterns, numbered from `tag`, whose next match begins right at a byte offset
    and is not empty. -/
def firstStart? (byte : Nat) : (tag : Nat) → List (Nat → Option Extent) → Option RegionStart
  | _, [] => none
  | tag, find :: rest =>
    match find byte with
    | none => firstStart? byte (tag + 1) rest
    | some m =>
      if m.start ≠ byte then firstStart? byte (tag + 1) rest
      else if m.isEmpty then firstStart? byte (tag + 1) rest
      else some ⟨tag, m.start, m.stop⟩

/-- The next unescaped region start at or after a byte offset. -/
inductive Starts : (byte : Nat) → (answer : Option RegionStart) → Prop
  | past {byte : Nat} (hpast : byteLength text < byte) : Starts byte none
  | none {byte : Nat} (hin : byte ≤ byteLength text) (hcandidate : Candidate ps text byte none) :
      Starts byte none
  | found {byte c : Nat} {m : RegionStart} (hin : byte ≤ byteLength text)
      (hcandidate : Candidate ps text byte (some c)) (hfirst : firstStart? c 0 ps.starts = some m) :
      Starts byte (some m)
  | again {byte c byte' : Nat} {answer : Option RegionStart} (hin : byte ≤ byteLength text)
      (hcandidate : Candidate ps text byte (some c)) (hfirst : firstStart? c 0 ps.starts = none)
      (hnext : next? text c = some byte') (hrest : Starts byte' answer) : Starts byte answer

/-! ## Steps -/

/-- The next boundary at or after a byte offset. -/
inductive Steps : (byte : Nat) → ScanState → (answer : Option Step) → Prop
  | outside {byte : Nat} {m : Option RegionStart} (hstarts : Starts ps text byte m) :
      Steps byte .outside (m.map fun m => ⟨m.start, m.start, m.stop, .inside m.tag⟩)
  | inside {byte tag : Nat} {find : Nat → Option Extent} {asked : List Nat} {m : Option Extent}
      (hfind : ps.stops[tag]? = some find) (hsearch : Searches find text ps.escape byte asked m) :
      Steps byte (.inside tag) (m.map fun m => ⟨m.start, m.stop, m.stop, .outside⟩)
  | unknown {byte tag : Nat} (hfind : ps.stops[tag]? = none) : Steps byte (.inside tag) none

end Searching

/-! ## Batches -/

/-- Where a scan is. -/
structure Position where
  byte    : Nat
  state   : ScanState
  counter : CharCounter

/-- What one round of a scan comes to: an answer, or where the next round begins. -/
inductive Turn (α β : Type) where
  | done (answer : α)
  | again (next : β)

variable (ps : Patterns) (text : Array Char) (base : Nat) (bound : Option Nat)

/-- One round of the scan of a batch, given the step that it takes. -/
def batchTurn (at' : Position) (saved : Option SavedTail) (step : Option Step) :
    Option (Turn (List Boundary × BatchEnd) (Boundary × Position × Option SavedTail)) := do
  match step.filter fun s => !bound.any (· ≤ s.textStart) with
  | none =>
    let (reached, _) ← at'.counter.charOffset? text base at'.byte
    return .done ([], .reached (reached - base) at'.state saved)
  | some s =>
    let (offset, counter) ← at'.counter.charOffset? text base s.offset
    let b := Boundary.into offset s.state
    let saved := saved.bind (·.discardBefore b.offset)
    match saved.bind (·.behind? b) with
    | some behind => return .done ([b], .spliced b.offset behind (saved.bind (·.frontier)))
    | none => return .again (b, ⟨s.next, s.state, counter⟩, saved)

/-- The scan of a batch, with the boundaries that it finds and how it ends. -/
inductive Batches : Position → Option SavedTail → List Boundary × BatchEnd → Prop
  | done {at' : Position} {saved : Option SavedTail} {step : Option Step}
      {answer : List Boundary × BatchEnd} (hstep : Steps ps text at'.byte at'.state step)
      (hturn : batchTurn text base bound at' saved step = some (.done answer)) :
      Batches at' saved answer
  | again {at' next : Position} {saved saved' : Option SavedTail} {step : Option Step} {b : Boundary}
      {found : List Boundary} {stop : BatchEnd} (hstep : Steps ps text at'.byte at'.state step)
      (hturn : batchTurn text base bound at' saved step = some (.again (b, next, saved')))
      (hrest : Batches next saved' (found, stop)) : Batches at' saved (b :: found, stop)

/-! ## Edited lines -/

/-- A step by char offsets of the whole text. -/
def CharCounter.place? (c : CharCounter) (s : Step) : Option (Step × CharCounter) := do
  let (textStart, c) ← c.charOffset? text base s.textStart
  let (offset, c) ← c.charOffset? text base s.offset
  let (next, c) ← c.charOffset? text base s.next
  return ({ s with textStart, offset, next }, c)

/-- One round of the scan of edited lines, given the step that it takes. -/
def confirmTurn (e : Edit) (at' : Position) (expected : List Boundary) (step : Option Step) :
    Option (Turn Bool (Position × List Boundary)) := do
  match step.filter fun s => !bound.any (· ≤ s.textStart) with
  | none => return .done expected.isEmpty
  | some s =>
    let (placed, counter) ← at'.counter.place? text base s
    if placed.textStart ≤ e.newStop ∧ e.pos ≤ placed.next then return .done false
    else
      match expected with
      | [] => return .done false
      | b :: rest =>
        if b = Boundary.into placed.offset s.state then return .again (⟨s.next, s.state, counter⟩, rest)
        else return .done false

/-- The scan of edited lines, and whether it confirms what is expected. -/
inductive Confirms (e : Edit) : (budget : Nat) → Position → List Boundary → Bool → Prop
  | spent {at' : Position} {expected : List Boundary} : Confirms e 0 at' expected false
  | done {budget : Nat} {at' : Position} {expected : List Boundary} {step : Option Step} {answer : Bool}
      (hstep : Steps ps text at'.byte at'.state step)
      (hturn : confirmTurn text base bound e at' expected step = some (.done answer)) :
      Confirms e (budget + 1) at' expected answer
  | again {budget : Nat} {at' next : Position} {expected rest : List Boundary} {step : Option Step}
      {answer : Bool} (hstep : Steps ps text at'.byte at'.state step)
      (hturn : confirmTurn text base bound e at' expected step = some (.again (next, rest)))
      (hrest : Confirms e budget next rest answer) : Confirms e (budget + 1) at' expected answer

end Encoded

end Highlighter
