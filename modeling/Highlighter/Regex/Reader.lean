import Highlighter.Chars.Folding
import Highlighter.Chars.Query
import Highlighter.Regex.Expression

/-! # Reading regular expressions

    The notation is the usual one: alternatives, groups, greedy and lazy repetitions,
    classes with ranges, nesting and set operations, and inline flags that hold to the end
    of their group.  `^` and `$` match at line edges unless a flag says otherwise.  What
    the notation does not have — look-around, back-references, unknown escapes — is
    refused, and so is a pattern nested too deeply. -/

namespace Highlighter
namespace Expression

/-- Settings that inline flags change. -/
structure Flags where
  /-- Letters match both cases. -/
  caseless  : Bool := false
  /-- `^` and `$` match at line edges and not only at the ends of the text. -/
  multiline : Bool := true
  /-- `.` matches a newline too. -/
  dotAll    : Bool := false
  /-- A plain quantifier is lazy and a marked one greedy. -/
  lazy      : Bool := false
  /-- Classes and word edges know all of Unicode. -/
  unicode   : Bool := true
  /-- A carriage return ends a line as well. -/
  crlf      : Bool := false
  /-- Blanks and comments in the pattern mean nothing. -/
  spaced    : Bool := false
  deriving DecidableEq, Repr, Inhabited

namespace Flags

/-- Sets the flag of a letter; none when no flag has it. -/
def set? (f : Flags) (letter : Char) (on : Bool) : Option Flags :=
  match letter with
  | 'i' => some { f with caseless := on }
  | 'm' => some { f with multiline := on }
  | 's' => some { f with dotAll := on }
  | 'U' => some { f with lazy := on }
  | 'u' => some { f with unicode := on }
  | 'R' => some { f with crlf := on }
  | 'x' => some { f with spaced := on }
  | _ => none

/-- A set under the flags: closed under case when letters match both cases, among ASCII chars
    alone without Unicode. -/
def fold (f : Flags) (s : CharSet) : CharSet :=
  if !f.caseless then s else if f.unicode then s.folded else s.foldedAscii

/-- The chars outside a set.  Without Unicode they would take in bytes that are no chars, and
    are refused. -/
def negate? (f : Flags) (s : CharSet) : Option CharSet :=
  if f.unicode then some s.compl else none

end Flags

/-- What is left of the pattern, the flags in force, and the groups opened so far. -/
structure Cursor where
  rest   : List Char
  flags  : Flags := {}
  names  : List String := []
  groups : Nat := 0

/-- A reader that fails on what is not well formed. -/
abbrev Reader := StateT Cursor Option

/-- Part of a pattern read so far. -/
structure Piece where
  expression : Expression
  /-- Levels of nesting inside. -/
  depth : Nat := 0
  /-- A quantifier may follow; not so after a flag setting. -/
  repeatable : Bool := true

/-- Greatest number of levels of nesting. -/
def depthLimit : Nat := 250

/-- Chars that mean something in a pattern, and stand for themselves behind a backslash. -/
def isMeta (c : Char) : Bool := "\\.+*?()|[]\x7b\x7d^$#&-~".toList.contains c

/-- Chars that a backslash may stand before without changing them. -/
def isEscapable (c : Char) : Bool :=
  isMeta c || (c.toNat < 128 && !c.isAlphanum && c != '<' && c != '>')

def hexDigit? (c : Char) : Option Nat :=
  if c.isDigit then some (c.toNat - '0'.toNat)
  else if 'a' ≤ c ∧ c ≤ 'f' then some (c.toNat - 'a'.toNat + 10)
  else if 'A' ≤ c ∧ c ≤ 'F' then some (c.toNat - 'A'.toNat + 10)
  else none

/-- The char with a code point, none for what is no char. -/
def charOfCode? (n : Nat) : Option Char := if n.isValidChar then some (Char.ofNat n) else none

/-- Drops blanks and comments; a comment goes up to and with its newline. -/
def skipBlanks : (inComment : Bool) → List Char → List Char
  | _, [] => []
  | true, c :: cs => skipBlanks (c != '\n') cs
  | false, c :: cs =>
    if Chars.isBlank c then skipBlanks false cs
    else if c = '#' then skipBlanks true cs
    else c :: cs

namespace Reader

def peek? : Reader (Option Char) := do return (← get).rest.head?

/-- The next char; fails at the end of the pattern. -/
def peek : Reader Char := do
  match (← get).rest with
  | c :: _ => return c
  | [] => failure

def advance : Reader Unit := modify fun s => { s with rest := s.rest.tail }

def next : Reader Char := do
  let c ← peek
  advance
  return c

def flags : Reader Flags := do return (← get).flags

def setFlags (f : Flags) : Reader Unit := modify fun s => { s with flags := f }

/-- Steps over blanks and comments where the flags say that they mean nothing. -/
def blanks : Reader Unit := modify fun s =>
  if s.flags.spaced then { s with rest := skipBlanks false s.rest } else s

def advanceBlanks : Reader Unit := do
  advance
  blanks

def require (p : Bool) : Reader Unit := if p then pure () else failure

/-- The char after the next one.  Where blanks mean nothing, those before it and a single sign
    that opens a comment do not count. -/
def peekSecond? : Reader (Option Char) := do
  let s ← get
  let rest := s.rest.tail
  if !s.flags.spaced then return rest.head?
  match rest.dropWhile Chars.isBlank with
  | '#' :: comment => return (comment.dropWhile Chars.isBlank).head?
  | after => return after.head?

/-- Takes a text if it comes next. -/
def accept (t : String) : Reader Bool := do
  let s ← get
  if t.toList.isPrefixOf s.rest then
    set { s with rest := s.rest.drop t.toList.length }
    return true
  else return false

/-- The chars up to the first that fails the test. -/
def takeAll (test : Char → Bool) : Reader (List Char) := do
  let s ← get
  set { s with rest := s.rest.dropWhile test }
  return s.rest.takeWhile test

/-- The chars up to the first that fails the test, with blanks dropped after each. -/
def takeApart (test : Char → Bool) : (fuel : Nat) → Reader (List Char)
  | 0 => return []
  | fuel + 1 => do
    match ← peek? with
    | some c =>
      if test c then
        advanceBlanks
        return c :: (← takeApart test fuel)
      else return []
    | none => return []

/-- The chars up to the first that fails the test, with blanks dropped after each where they
    mean nothing. -/
def takeWhile (test : Char → Bool) : Reader (List Char) := do
  let s ← get
  if s.flags.spaced then takeApart test s.rest.length else takeAll test

/-- Chars left, a bound for every loop over them. -/
def room : Reader Nat := do return (← get).rest.length

/-- One level of nesting more, as long as there may be one. -/
def deeper (depth : Nat) : Reader Nat := do
  require (depth < depthLimit)
  return depth + 1

/-! ## Numbers and escapes -/

/-- A decimal number below 2³², with blanks allowed around it. -/
def decimal : Reader Nat := do
  let _ ← takeAll Chars.isBlank
  let digits ← takeWhile Char.isDigit
  let _ ← takeAll Chars.isBlank
  blanks
  let n := digits.foldl (fun n c => n * 10 + (c.toNat - '0'.toNat)) 0
  require (!digits.isEmpty && n < 0x100000000)
  return n

def codeOfHex (digits : List Char) : Reader Char := do
  let n := digits.foldl (fun n c => n * 16 + (hexDigit? c).getD 0) 0
  require (digits.all (hexDigit? · |>.isSome) && n < 0x100000000)
  charOfCode? n

/-- `n` hex digits. -/
def hexDigits : (n : Nat) → Reader (List Char)
  | 0 => return []
  | n + 1 => do
    let c ← next
    require (hexDigit? c).isSome
    blanks
    return c :: (← hexDigits n)

/-- What an escape stands for. -/
inductive Escape where
  | literal (c : Char)
  /-- A literal byte, written with two hex digits. -/
  | byte (c : Char)
  | shorthand (letter : Char)
  /-- The chars that have a property. -/
  | property (s : CharSet)
  | anchor (a : Anchor)

/-- A code point in hex behind `\x`, `\u` or `\U`, with or without braces. -/
def hexEscape (kind : Char) : Reader Escape := do
  blanks
  if (← peek) = '\x7b' then
    advanceBlanks
    let digits ← takeWhile (· != '\x7d')
    let close ← next
    require (close = '\x7d' && !digits.isEmpty)
    blanks
    return .literal (← codeOfHex digits)
  else
    let c ← codeOfHex (← hexDigits (if kind = 'x' then 2 else if kind = 'u' then 4 else 8))
    return if kind = 'x' then .byte c else .literal c

/-- A text in two parts at the first place where a separator stands. -/
def cut? (separator : List Char) : List Char → Option (List Char × List Char)
  | [] => none
  | c :: cs =>
    if separator.isPrefixOf (c :: cs) then some ([], (c :: cs).drop separator.length)
    else (cut? separator cs).map fun (left, right) => (c :: left, right)

/-- The chars of a property query: a name, or a name and a value behind `!=`, a colon or `=`. -/
def queried? (query : List Char) : Option CharSet :=
  let parts := cut? ['!', '='] query <|> cut? [':'] query <|> cut? ['='] query
  match parts with
  | some (property, value) =>
    Chars.valuedSet? (String.ofList property) (String.ofList value)
  | none => Chars.namedSet? (String.ofList query)

/-- A property behind `\p` or `\P`: a query in braces, or one letter. -/
def property (negated : Bool) : Reader CharSet := do
  blanks
  let query ←
    if (← peek) = '\x7b' then
      advanceBlanks
      let query ← takeWhile (· != '\x7d')
      let _ ← next
      pure query
    else
      let c ← next
      require (c != '\\')
      blanks
      pure [c]
  let f ← flags
  require f.unicode
  let s := f.fold (← queried? query)
  if negated then f.negate? s else return s

/-- The word edge in braces behind `\b`; none when the brace opens a repetition. -/
def namedEdge? : Reader (Option WordEdge) := do
  let saved ← get
  let isNameChar := fun (c : Char) => c.isAlpha || c == '-'
  advanceBlanks
  if isNameChar (← peek) then
    let name ← takeWhile isNameChar
    let close ← next
    require (close = '\x7d')
    match String.ofList name with
    | "start" => return some .start
    | "end" => return some .stop
    | "start-half" => return some .startHalf
    | "end-half" => return some .stopHalf
    | _ => failure
  else
    set saved
    return none

/-- An escape, from its backslash on. -/
def escape : Reader Escape := do
  advance
  let c ← next
  let ascii := !(← flags).unicode
  if c = 'x' ∨ c = 'u' ∨ c = 'U' then hexEscape c
  else if c = 'p' ∨ c = 'P' then return .property (← property (c = 'P'))
  else if "dswDSW".toList.contains c then return .shorthand c
  else if isEscapable c then return .literal c
  else
    match c with
    | 'a' => return .literal '\x07'
    | 'f' => return .literal '\x0c'
    | 't' => return .literal '\t'
    | 'n' => return .literal '\n'
    | 'r' => return .literal '\r'
    | 'v' => return .literal '\x0b'
    | 'A' => return .anchor .textStart
    | 'z' => return .anchor .textEnd
    | 'b' =>
      let edge ← if (← peek?) = some '\x7b' then namedEdge? else pure none
      return .anchor (.word (edge.getD .boundary) ascii)
    | 'B' => return .anchor (.word .inner ascii)
    | '<' => return .anchor (.word .start ascii)
    | '>' => return .anchor (.word .stop ascii)
    | _ => failure

/-! ## Classes -/

/-- The set of a shorthand letter. -/
def shorthandSet (letter : Char) : Reader CharSet := do
  let f ← flags
  let base : CharSet := match letter.toLower with
    | 'd' => if f.unicode then Chars.Category.decimalNumber else .range '0' '9'
    | 's' => if f.unicode then Chars.Property.whiteSpace else .ofRanges [(9, 13), (32, 32)]
    | _ =>
      if f.unicode then Chars.wordChars
      else .ofRanges [(0x30, 0x39), (0x41, 0x5A), (0x5F, 0x5F), (0x61, 0x7A)]
  if letter.isUpper then f.negate? base else return base

/-- A literal of a class; without Unicode only ASCII will do. -/
def classLiteral (c : Char) : Reader Char := do
  require ((← flags).unicode || c.toNat < 128)
  return c

/-- A member of a class before it is known whether a range follows: a literal, or a class. -/
def classItem : Reader (Char ⊕ CharSet) := do
  if (← peek) = '\\' then
    match ← escape with
    | .literal c | .byte c => return .inl (← classLiteral c)
    | .shorthand l => return .inr (← shorthandSet l)
    | .property s => return .inr s
    | .anchor _ => failure
  else return .inl (← classLiteral (← next))

/-- A literal, a range or a shorthand.  A dash before `]` or before another dash is no range. -/
def classRange : Reader CharSet := do
  let first ← classItem
  blanks
  let c ← peek
  let after ← peekSecond?
  if c != '-' || after == some ']' || after == some '-' then
    match first with
    | .inl c => return .single c
    | .inr s => return s
  else
    advanceBlanks
    let _ ← peek
    match first, ← classItem with
    | .inl lo, .inl hi =>
      require (lo.toNat ≤ hi.toNat)
      return .range lo hi
    | _, _ => failure

/-- The ASCII sets that have a name in classes. -/
def namedSets : List (String × CharSet) :=
  [("alnum", .ofRanges [(0x30, 0x39), (0x41, 0x5A), (0x61, 0x7A)]),
   ("alpha", .ofRanges [(0x41, 0x5A), (0x61, 0x7A)]),
   ("ascii", .ofRanges [(0, 0x7F)]),
   ("blank", .ofRanges [(9, 9), (32, 32)]),
   ("cntrl", .ofRanges [(0, 0x1F), (0x7F, 0x7F)]),
   ("digit", .ofRanges [(0x30, 0x39)]),
   ("graph", .ofRanges [(0x21, 0x7E)]),
   ("lower", .ofRanges [(0x61, 0x7A)]),
   ("print", .ofRanges [(0x20, 0x7E)]),
   ("punct", .ofRanges [(0x21, 0x2F), (0x3A, 0x40), (0x5B, 0x60), (0x7B, 0x7E)]),
   ("space", .ofRanges [(9, 13), (32, 32)]),
   ("upper", .ofRanges [(0x41, 0x5A)]),
   ("word", .ofRanges [(0x30, 0x39), (0x41, 0x5A), (0x5F, 0x5F), (0x61, 0x7A)]),
   ("xdigit", .ofRanges [(0x30, 0x39), (0x41, 0x46), (0x61, 0x66)])]

/-- A named set such as `[:alpha:]`; none when what comes next is not one. -/
def namedClass? : Reader (Option CharSet) := do
  let saved ← get
  match saved.rest.drop 1 with
  | ':' :: body =>
    let negated := body.head? == some '^'
    let named := if negated then body.tail else body
    let name := named.takeWhile (· != ':')
    match named.drop name.length, namedSets.lookup (String.ofList name) with
    | ':' :: ']' :: rest, some s =>
      set { saved with rest }
      let s := saved.flags.fold s
      return some (← if negated then saved.flags.negate? s else pure s)
    | _, _ => return none
  | _ => return none

/-- The set operations of classes. -/
inductive ClassOp where
  | inter | diff | symDiff

/-- A class under way: what is left of the pending operation, and the members since. -/
structure OpenClass where
  /-- The operation, its left side, and the levels of nesting on that side. -/
  pending : Option (ClassOp × CharSet × Nat) := none
  members : List CharSet := []
  /-- The greatest number of levels of nesting in a member. -/
  depth   : Nat := 0

namespace OpenClass

def add (k : OpenClass) (s : CharSet) (depth : Nat) : OpenClass :=
  { k with members := s :: k.members, depth := max k.depth depth }

/-- The class read so far: case folding comes before every set operation and at the end. -/
def value (k : OpenClass) (f : Flags) : CharSet :=
  let right := f.fold (.unions k.members)
  match k.pending with
  | none => right
  | some (.inter, left, _) => f.fold (left.inter right)
  | some (.diff, left, _) => f.fold (left.diff right)
  | some (.symDiff, left, _) => f.fold (left.symDiff right)

/-- Levels of nesting so far: two members or more make a level, and so does an operation. -/
def levels (k : OpenClass) : Nat :=
  let right := if 2 ≤ k.members.length then k.depth + 1 else k.depth
  match k.pending with
  | none => right
  | some (_, _, left) => 1 + max left right

end OpenClass

/-- The start of a class: `[`, perhaps `^`; dashes, and a `]` that comes first, are literal. -/
def classOpen : Reader (Bool × OpenClass) := do
  advanceBlanks
  let negated := (← peek) == '^'
  if negated then advanceBlanks
  let dashes ← takeWhile (· == '-')
  let _ ← peek
  let k : OpenClass := dashes.foldl (fun k c => k.add (.single c) 0) {}
  if dashes.isEmpty && (← peek) == ']' then
    advanceBlanks
    let _ ← peek
    return (negated, k.add (.single ']') 0)
  else return (negated, k)

/-- The members of a class up to and with its `]`; the set, and its levels of nesting. -/
def classBody : (fuel : Nat) → (negated : Bool) → OpenClass → Reader (CharSet × Nat)
  | 0, _, _ => failure
  | fuel + 1, negated, k => do
    blanks
    let c ← peek
    let second := (← get).rest.tail.head?
    if c = ']' then
      advance
      let f ← flags
      let s := k.value f
      return (← if negated then f.negate? s else pure s, ← deeper k.levels)
    else if c = '[' then
      match ← namedClass? with
      | some s => classBody fuel negated (k.add s 0)
      | none =>
        let (innerNegated, inner) ← classOpen
        let (s, depth) ← classBody fuel innerNegated inner
        classBody fuel negated (k.add s depth)
    else if (c = '&' ∨ c = '-' ∨ c = '~') ∧ second = some c then
      advance
      advance
      let op := if c = '&' then ClassOp.inter else if c = '-' then .diff else .symDiff
      classBody fuel negated { pending := some (op, k.value (← flags), k.levels) }
    else
      let s ← classRange
      classBody fuel negated (k.add s 0)

/-- A bracketed class. -/
def bracketed : Reader Piece := do
  let (negated, k) ← classOpen
  let (s, depth) ← classBody (2 * (← room) + 2) negated k
  return { expression := .ofSet s, depth }

/-! ## Single elements -/

/-- A literal char outside a class. -/
def literal (c : Char) : Reader Piece := do
  return { expression := .ofSet ((← flags).fold (.single c)) }

def primitive : Reader Piece := do
  let f ← flags
  match ← peek with
  | '\\' =>
    match ← escape with
    | .literal c => literal c
    | .byte c =>
      require (f.unicode || c.toNat < 128)
      literal c
    | .shorthand l => return { expression := .ofSet (← shorthandSet l) }
    | .property s => return { expression := .ofSet s }
    | .anchor a => return { expression := .anchor a }
  | '.' =>
    advance
    require f.unicode
    let s : CharSet :=
      if f.dotAll then .any
      else if f.crlf then (CharSet.ofCodes [10, 13]).compl
      else (CharSet.single '\n').compl
    return { expression := .chars s }
  | '^' =>
    advance
    let a : Anchor :=
      if !f.multiline then .textStart else if f.crlf then .crlfLineStart else .lineStart
    return { expression := .anchor a }
  | '$' =>
    advance
    let a : Anchor :=
      if !f.multiline then .textEnd else if f.crlf then .crlfLineEnd else .lineEnd
    return { expression := .anchor a }
  | c =>
    advance
    literal c

/-! ## Repetitions -/

/-- Puts a quantifier on the last element; a `?` behind it makes it lazy. -/
def quantify (least : Nat) (most : Option Nat) (items : List Piece) : Reader (List Piece) := do
  match items with
  | [] => failure
  | last :: before =>
    require last.repeatable
    let marked := (← peek?) == some '?'
    if marked then advance
    let greedy := marked == (← flags).lazy
    let depth ← deeper last.depth
    return { expression := repetition last.expression least most greedy, depth } :: before

/-- A repetition count in braces. -/
def counted (items : List Piece) : Reader (List Piece) := do
  advanceBlanks
  let least ← decimal
  let bounds ←
    if (← peek) = ',' then
      advanceBlanks
      if (← peek) = '\x7d' then pure (least, none)
      else
        let most ← decimal
        pure (least, some most)
    else pure (least, some least)
  let close ← peek
  require (close = '\x7d')
  require (bounds.2.all fun most => bounds.1 ≤ most)
  advanceBlanks
  quantify bounds.1 bounds.2 items

/-! ## Groups -/

/-- Flag letters up to `:` or `)`, which is taken too; none when there are no letters.  A letter
    or a dash may come once, and a dash last means nothing. -/
def flagItems : (fuel : Nat) → (seen : List Char) → (on : Bool) → Flags →
    Reader (List Char × Flags × Char)
  | 0, _, _, _ => failure
  | fuel + 1, seen, on, f => do
    let c ← next
    if c = ':' ∨ c = ')' then
      require (seen.head? != some '-')
      return (seen, f, c)
    else
      require (!seen.contains c)
      if c = '-' then flagItems fuel (c :: seen) false f
      else flagItems fuel (c :: seen) on (← f.set? c on)

/-- A group name up to and with its `>`; a name may be used once. -/
def groupName : Reader Unit := do
  let name ← takeAll (· != '>')
  let _ ← next
  match name with
  | [] => failure
  | c :: cs =>
    require (Chars.startsName c && cs.all Chars.continuesName)
    let s ← get
    require (!s.names.contains (String.ofList name))
    set { s with names := String.ofList name :: s.names }

/-- What an opening parenthesis begins. -/
inductive Opening where
  /-- A flag setting, complete. -/
  | setting
  /-- A group, up to the matching parenthesis; without a number, one that counts for nothing. -/
  | group (number : Option Nat)

/-- A numbered group begins. -/
def numbered : Reader Opening := do
  let s ← get
  set { s with groups := s.groups + 1 }
  return .group (some (s.groups + 1))

/-- The start of a group, with its name or flags. -/
def opening : Reader Opening := do
  advanceBlanks
  if ← accept "?=" then failure
  if ← accept "?!" then failure
  if ← accept "?<=" then failure
  if ← accept "?<!" then failure
  if ← accept "?P<" then
    groupName
    numbered
  else if ← accept "?<" then
    groupName
    numbered
  else if ← accept "?" then
    let (letters, f, close) ← flagItems (← room) [] true (← flags)
    setFlags f
    if close = ')' then
      require (!letters.isEmpty)
      return .setting
    else return .group none
  else numbered

/-- Pieces joined by an operation, two or more of which make a level; the last one comes
    first. -/
def joined (join : List Expression → Expression) : (pieces : List Piece) → Piece
  | [one] => one
  | pieces =>
    let depth := pieces.foldl (fun d piece => max d piece.depth) 0
    { expression := join (pieces.map (·.expression)).reverse
      depth := if pieces.isEmpty then 0 else depth + 1 }

/-- Alternatives up to a closing parenthesis or the end of the pattern, neither of which is
    taken.  `items` are the elements of the current branch and `branches` the
    alternatives before it, both last first. -/
def alternatives : (fuel : Nat) → (branches items : List Piece) → Reader Piece
  | 0, _, _ => failure
  | fuel + 1, branches, items => do
    blanks
    match ← peek? with
    | none | some ')' => return joined choice (joined sequence items :: branches)
    | some '|' =>
      advance
      alternatives fuel (joined sequence items :: branches) []
    | some '(' =>
      let outer ← flags
      match ← opening with
      | .setting =>
        alternatives fuel branches ({ expression := .empty, repeatable := false } :: items)
      | .group number =>
        let inner ← alternatives fuel [] []
        let close ← next
        require (close = ')')
        setFlags outer
        let expression := match number with
          | some n => .group n inner.expression
          | none => inner.expression
        let depth ← deeper inner.depth
        alternatives fuel branches ({ expression, depth } :: items)
    | some '[' =>
      let piece ← bracketed
      alternatives fuel branches (piece :: items)
    | some '?' =>
      advance
      alternatives fuel branches (← quantify 0 (some 1) items)
    | some '*' =>
      advance
      alternatives fuel branches (← quantify 0 none items)
    | some '+' =>
      advance
      alternatives fuel branches (← quantify 1 none items)
    | some '\x7b' => alternatives fuel branches (← counted items)
    | some _ =>
      let piece ← primitive
      alternatives fuel branches (piece :: items)

/-- A whole pattern. -/
def pattern : Reader Expression := do
  let piece ← alternatives (2 * (← room) + 2) [] []
  require (← get).rest.isEmpty
  require (piece.depth ≤ depthLimit)
  return piece.expression

end Reader

/-- The expression that a pattern is written for; none when the pattern is not well formed. -/
def ofPattern? (pattern : String) : Option Expression :=
  (Reader.pattern.run { rest := pattern.toList }).map Prod.fst

end Expression

end Highlighter
