import Highlighter.Chars.Utf8
import Highlighter.Regex.Expression
import Std.Data.HashMap

/-! # Footprints — the size of an expression as an automaton over bytes

    An expression that would take too many bytes is refused.  The bytes are those of an
    automaton over UTF-8 with every repetition written out, laid out once to be read forward
    and once to be read backward; both have to keep to the limit.  Only states are counted:
    what they lead to matters where states of one char set are shared. -/

namespace Highlighter

/-- What has been laid out of an automaton. -/
structure Footprint where
  /-- Number of states. -/
  states : Nat := 0
  /-- Bytes they take. -/
  bytes : Nat := 0
  /-- The states of the current char set that can be shared, by slot. -/
  recent : Std.HashMap Nat (List Nat × Nat) := {}

namespace Footprint

/-- The most bytes that an automaton may take. -/
def limit : Nat := 10485760

/-- Lays out states; fails when they take too many bytes. -/
abbrev Layout := StateT Footprint Option

/-- Adds `n` states that need `extra` bytes in all besides their own, and answers the number of
    the first. -/
def addStates (n extra : Nat) : Layout Nat := do
  let f ← get
  let bytes := f.bytes + 32 * n + extra
  if limit < bytes then failure
  set { f with states := f.states + n, bytes }
  return f.states

/-- Adds states of the same kind. -/
def add (n extra : Nat) : Layout Unit := discard (addStates n extra)

/-- Repeats a layout. -/
def times : Nat → Layout Unit → Layout Unit
  | 0, _ => pure ()
  | n + 1, part => do
    part
    times n part

/-! ## Char sets -/

/-- The slot of a key among as many as there are. -/
def slot (slots : Nat) (key : List Nat) : Nat :=
  let mixed := key.foldl (fun (h : UInt64) n => (h ^^^ n.toUInt64) * 1099511628211)
    14695981039346656037
  mixed.toNat % slots

/-- No state can be shared any more. -/
def forget : Layout Unit := modify fun f => { f with recent := {} }

/-- The state with a key: the one that its slot holds if it has that key, else a new one, which
    takes over the slot. -/
def shared (slots : Nat) (key : List Nat) (extra : Nat) : Layout Nat := do
  let slot := slot slots key
  match (← get).recent[slot]? with
  | some (held, number) =>
    if held = key then return number
  | none => pure ()
  let number ← addStates 1 extra
  modify fun f => { f with recent := f.recent.insert slot (key, number) }
  return number

/-- The states that read the byte sequences forward, up to the state `target`; sequences that
    begin alike share their first state, and sequences that end alike their last ones.
    `height` bounds their lengths. -/
def forwardNode (target : Nat) : (height : Nat) → List (List (Nat × Nat)) → Layout Nat
  | 0, _ => return target
  | height + 1, sequences => do
    let groups := sequences.splitBy fun a b => a.head? == b.head?
    let steps ← groups.mapM fun group => do
      let ends := group.map List.tail
      let next ← if ends.all List.isEmpty then pure target else forwardNode target height ends
      let (lo, hi) := (group.head?.bind List.head?).getD (0, 0)
      return [lo, hi, next]
    shared 10000 steps.flatten (8 * steps.length)

def forwardSet (s : CharSet) : Layout Unit := do
  forget
  let target ← addStates 1 0
  discard (forwardNode target 4 (Utf8.sequences s))

/-- The states that read the byte sequences backward, from one state that begins them all. -/
def backwardSet (s : CharSet) : Layout Unit := do
  forget
  add 1 0
  let target ← addStates 1 0
  (Utf8.sequences s).forM fun sequence => do
    let _ ← sequence.foldlM (fun after (lo, hi) => shared 1000 [after, lo, hi] 0) target
    add 0 4

/-- One state reads an ASCII set, and one comes after it. -/
def asciiSet (s : CharSet) : Layout Unit := do
  add 1 0
  add 1 (8 * s.ranges.length)

/-! ## Words -/

/-- Lays out words that share their beginnings.  A word that ends where others go on parts
    those before it from those behind it; ending there once more changes nothing as long as
    none has gone on.  `height` bounds the lengths of the words. -/
def wordTree : (height : Nat) → (words : List (List Nat)) → Layout Unit
  | 0, _ => pure ()
  | height + 1, words => do
    let started := words.dropWhile List.isEmpty
    if started.isEmpty then return
    let runs := (started.splitBy fun a b => !a.isEmpty && !b.isEmpty).filter (!·.all List.isEmpty)
    runs.forM fun run => do
      let firsts := (run.filterMap List.head?).eraseDups
      firsts.forM fun b =>
        wordTree height (run.filterMap fun w => if w.head? = some b then some w.tail else none)
      add 1 (if firsts.length = 1 then 0 else 8 * firsts.length)
    let ended := started.countP List.isEmpty + (if words.head? = some [] then 1 else 0)
    add 1 (4 * (runs.length + ended))

/-- A choice of words. -/
def words (ws : List (List Nat)) : Layout Unit := do
  add 1 0
  wordTree (ws.foldl (fun n w => max n w.length) 0 + 1) ws

/-- The bytes of an expression that matches one text only. -/
def word? : Expression → Option (List Nat)
  | .literal cs => some (cs.flatMap fun c => Utf8.bytes c.toNat)
  | _ => none

/-! ## Expressions -/

/-- A choice of laid-out alternatives: behind the second one come the state that begins the
    choice and the state that ends it. -/
def choice : List (Layout Unit) → Layout Unit
  | [] => pure ()
  | [one] => one
  | first :: second :: others => do
    first
    second
    add 2 8
    others.forM fun other => do
      other
      add 0 4

/-- Rounds of a part.  One that may match nothing needs more states to be left out. -/
def rounds (part : Layout Unit) (consumes : Bool) :
    (least : Nat) → (most : Option Nat) → Layout Unit
  | 0, none => do
    if consumes then
      add 1 8
      part
    else
      part
      add 3 16
  | n + 1, none => do
    times n part
    part
    add 1 8
  | 0, some 1 => do
    add 1 8
    part
    add 1 0
  | least, some most => do
    if least = 0 then add 1 0 else times least part
    if least < most then
      add 1 0
      times (most - least) do
        add 1 8
        part

/-- An expression whose alternatives are laid out by `parts`; words have a layout of their own. -/
def whole (backward : Bool) (e : Expression) (parts : List (Layout Unit)) : Layout Unit :=
  match e, e.branches.mapM word? with
  | .alt _ _, some ws => words (if backward then ws.map List.reverse else ws)
  | _, _ => choice parts

/-- The layouts of the alternatives of an expression.  Groups count forward only. -/
def layouts (backward : Bool) : Expression → List (Layout Unit)
  | .empty | .anchor _ => [add 1 0]
  | .literal cs => [add (cs.foldl (fun n c => n + c.utf8Size) 0) 0]
  | .chars s =>
    [if s.isAscii then asciiSet s else if backward then backwardSet s else forwardSet s]
  | .group _ e =>
    let inner := whole backward e (layouts backward e)
    [if backward then inner else do
      add 1 0
      inner
      add 1 0]
  | .seq a b =>
    let first := whole backward a (layouts backward a)
    let rest := whole backward b (layouts backward b)
    [if backward then do
      rest
      first
    else do
      first
      rest]
  | .alt a b => whole backward a (layouts backward a) :: layouts backward b
  | .rounds e least most _ => [rounds (whole backward e (layouts backward e)) e.consumes least most]

/-- A whole automaton: it skips any bytes before the match, and notes where a match that is read
    forward begins and ends. -/
def automaton (backward : Bool) (e : Expression) : Layout Unit := do
  add 3 16
  whole backward (.group 0 e) (layouts backward (.group 0 e))
  add 1 0

/-- The automata of an expression keep to the limit. -/
def fits (e : Expression) : Bool :=
  ((automaton false e).run {}).isSome && ((automaton true e).run {}).isSome

end Footprint

end Highlighter
