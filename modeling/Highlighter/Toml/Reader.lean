import Highlighter.Toml.Draft
import Highlighter.Toml.Marked

/-! # Reading TOML

    A file is a sequence of lines: blank ones, table headers, and keys with values.  Values
    nest through arrays and inline tables, to a limited depth.  A file that departs from
    the format at any point gives no table at all. -/

namespace Highlighter.Toml

/-- A reader over the chars ahead, failing on what is not well formed. -/
abbrev Reader := StateT (List Char) Option

/-- Containers inside one another, and parts of a dotted key: one less than this many. -/
def nestingLimit : Nat := 80

namespace Reader

def peek? : Reader (Option Char) := do return (← get).head?

def advance : Reader Unit := modify List.tail

def next : Reader Char := do
  match ← get with
  | c :: cs =>
    set cs
    return c
  | [] => failure

def expect (c : Char) : Reader Unit := do if (← next) != c then failure

def require (p : Bool) : Reader Unit := if p then pure () else failure

/-- Takes a text if it comes next. -/
def accept (t : List Char) : Reader Bool := do
  let cs ← get
  if t.isPrefixOf cs then
    set (cs.drop t.length)
    return true
  else return false

def takeWhile (test : Char → Bool) : Reader (List Char) := do
  let cs ← get
  let taken := cs.takeWhile test
  set (cs.drop taken.length)
  return taken

/-! ## Blanks -/

def blanks : Reader Unit := do
  let _ ← takeWhile fun c => c == ' ' || c == '\t'

/-- A newline, alone or behind a carriage return. -/
def newline? : Reader Bool := do
  if ← accept ['\n'] then return true else accept ['\r', '\n']

/-- A char that may stand in a comment or a string as it is: no control chars but tabs. -/
def isPlain (c : Char) : Bool := c == '\t' || (0x20 ≤ c.toNat && c.toNat != 0x7f)

/-- The end of a line: blanks and perhaps a comment, then a newline or the end of the file. -/
def lineEnd : Reader Unit := do
  blanks
  if (← peek?) == some '#' then
    let _ ← takeWhile isPlain
  unless ← newline? do
    if (← peek?).isSome then failure

/-- What is left behind blanks, newlines and comments. -/
def afterGap : (inComment : Bool) → List Char → List Char
  | _, [] => []
  | _, '\n' :: cs | _, '\r' :: '\n' :: cs => afterGap false cs
  | true, c :: cs => if isPlain c then afterGap true cs else c :: cs
  | false, c :: cs =>
    if c == ' ' || c == '\t' then afterGap false cs
    else if c == '#' then afterGap true cs
    else c :: cs

/-- Blanks, newlines and comments. -/
def gap : Reader Unit := modify (afterGap false)

/-! ## Strings and keys -/

/-- A code point in `n` hex digits. -/
def codePoint (n : Nat) : Reader Char := do
  let cs ← get
  let ds := cs.take n
  let code := digitsValue 16 ds
  require (ds.length == n && ds.all isHexDigit && decide code.isValidChar)
  set (cs.drop n)
  return Char.ofNat code

/-- What follows a backslash in a string. -/
def escaped : Reader Char := do
  match ← next with
  | 'b' => return '\x08'
  | 't' => return '\t'
  | 'n' => return '\n'
  | 'f' => return '\x0c'
  | 'r' => return '\r'
  | '"' => return '"'
  | '\\' => return '\\'
  | 'u' => codePoint 4
  | 'U' => codePoint 8
  | _ => failure

/-- The rest of a string of one line, up to and with its closing quote. -/
def lineString (quote : Char) : (fuel : Nat) → List Char → Reader String
  | 0, _ => failure
  | fuel + 1, taken => do
    let c ← next
    if c == quote then return String.ofList taken.reverse
    else if c == '\\' && quote == '"' then lineString quote fuel ((← escaped) :: taken)
    else
      require (isPlain c)
      lineString quote fuel (c :: taken)

/-- The rest of a string of several lines.  Up to two quotes may stand before the closing three;
    a backslash at the end of a line takes the blanks and newlines after it. -/
def blockString (quote : Char) : (fuel : Nat) → List Char → Reader String
  | 0, _ => failure
  | fuel + 1, taken => do
    let cs ← get
    let quotes := (cs.takeWhile (· == quote)).length
    if quotes != 0 then
      set (cs.drop (min quotes 5))
      if 3 ≤ quotes then
        return String.ofList (List.replicate (min quotes 5 - 3) quote ++ taken).reverse
      else blockString quote fuel (List.replicate quotes quote ++ taken)
    else if ← newline? then blockString quote fuel ('\n' :: taken)
    else
      let c ← next
      if c == '\\' && quote == '"' then
        let behind ← get
        blanks
        if ← newline? then
          let _ ← takeNewlines fuel
          blockString quote fuel taken
        else
          set behind
          blockString quote fuel ((← escaped) :: taken)
      else
        require (isPlain c)
        blockString quote fuel (c :: taken)
where
  /-- Blanks and newlines. -/
  takeNewlines : Nat → Reader Unit
    | 0 => return
    | fuel + 1 => do
      blanks
      if ← newline? then takeNewlines fuel

/-- Chars left, a bound for every loop over them. -/
def room : Reader Nat := do return (← get).length

/-- A quoted string, of one line or several. -/
def quoted (quote : Char) : Reader String := do
  if ← accept [quote, quote, quote] then
    let _ ← newline?
    blockString quote ((← room) + 1) []
  else
    advance
    lineString quote ((← room) + 1) []

/-- A bare key, or a quoted one on one line. -/
def simpleKey : Reader String := do
  match ← peek? with
  | some '"' =>
    advance
    lineString '"' ((← room) + 1) []
  | some '\'' =>
    advance
    lineString '\'' ((← room) + 1) []
  | _ =>
    let cs ← takeWhile fun c => c.isAlphanum || c == '_' || c == '-'
    require !cs.isEmpty
    return String.ofList cs

/-- Keys with dots between them, and blanks around each. -/
def dottedKey : (fuel : Nat) → Reader (List String)
  | 0 => failure
  | fuel + 1 => do
    blanks
    let key ← simpleKey
    blanks
    if ← accept ['.'] then return key :: (← dottedKey fuel) else return [key]

/-- A dotted key, split into the way to its table and the last key. -/
def keyPath : Reader (List String × String) := do
  let keys ← dottedKey ((← room) + 1)
  require (keys.length < nestingLimit)
  match keys.getLast? with
  | some key => return (keys.dropLast, key)
  | none => failure

/-! ## Values -/

/-- An unquoted scalar; a date may have a blank before its time. -/
def scalar : Reader Value := do
  let isScalarChar := fun (c : Char) =>
    !(c == ' ' || c == '\t' || c == '\n' || c == '\r' || c == ',' || c == ']' || c == '\x7d' ||
      c == '#')
  let cs ← takeWhile isScalarChar
  let rest ← get
  if isDate cs && rest.head? == some ' ' && (rest.tail.head?.any Char.isDigit) then
    advance
    let time ← takeWhile isScalarChar
    scalar? (cs ++ ' ' :: time)
  else scalar? cs

mutual

/-- A value inside `depth` containers. -/
def value : (fuel depth : Nat) → Reader Value
  | 0, _ => failure
  | fuel + 1, depth => do
    match ← peek? with
    | some '"' => return .string (← quoted '"')
    | some '\'' => return .string (← quoted '\'')
    | some '[' =>
      require (depth + 1 < nestingLimit)
      advance
      return .array (← elements fuel (depth + 1))
    | some '\x7b' =>
      require (depth + 1 < nestingLimit)
      advance
      blanks
      if ← accept ['\x7d'] then return .table []
      else
        let draft ← pairs fuel (depth + 1) Draft.headed
        return .table draft.toTable
    | _ => scalar

/-- The rest of an array, up to and with its bracket; a comma may come last. -/
def elements : (fuel depth : Nat) → Reader (List Value)
  | 0, _ => failure
  | fuel + 1, depth => do
    gap
    if ← accept [']'] then return []
    else
      let v ← value fuel depth
      gap
      if ← accept [','] then return v :: (← elements fuel depth)
      else
        expect ']'
        return [v]

/-- The pairs of an inline table, up to and with its brace. -/
def pairs : (fuel depth : Nat) → Draft → Reader Draft
  | 0, _, _ => failure
  | fuel + 1, depth, draft => do
    let (path, key) ← keyPath
    expect '='
    blanks
    let v ← value fuel depth
    let draft ← draft.assign path key v
    blanks
    if ← accept [','] then pairs fuel depth draft
    else
      expect '\x7d'
      return draft

end

/-! ## Lines -/

/-- The lines of a file.  `header` is the path of the table that keys go to. -/
def lines : (fuel : Nat) → (header : List String) → Draft → Reader Draft
  | 0, _, _ => failure
  | fuel + 1, header, root => do
    blanks
    match ← peek? with
    | none => return root
    | some '#' | some '\n' | some '\r' =>
      lineEnd
      lines fuel header root
    | some '[' =>
      advance
      let element ← accept ['[']
      let (path, key) ← keyPath
      expect ']'
      if element then expect ']'
      lineEnd
      let root ← if element then root.openElement path key else root.openTable path key
      lines fuel (path ++ [key]) root
    | some _ =>
      let (path, key) ← keyPath
      expect '='
      blanks
      let v ← value (2 * (← room) + 2) 0
      lineEnd
      let root ← root.assignBelow header path key v
      lines fuel header root

/-- A whole file, perhaps with a byte order mark. -/
def file : Reader Table := do
  let _ ← accept [Char.ofNat 0xFEFF]
  let draft ← lines ((← room) + 1) [] Draft.headed
  return draft.toTable

end Reader

/-- The table of a file; none when the file is not well formed. -/
def parse? (source : String) : Option Table :=
  (Reader.file.run source.toList).bind fun (table, _) => unmarkEntries table

end Highlighter.Toml
