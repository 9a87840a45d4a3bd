import Highlighter.Catalog
import Highlighter.Session

/-! # Buffers — a document together with its session

    A buffer makes every edit itself and tells its session right after, so the two never
    drift apart. -/

namespace Highlighter

/-- A highlighted text with a name, and perhaps a file and a language. -/
structure Buffer where
  document : Document
  session  : Session
  name     : String
  filename : Option String := none
  language : Option String := none
  /-- There are changes that are not saved. -/
  modified : Bool := false
  deriving Inhabited

namespace Buffer

/-- A buffer that holds a text. -/
def ofText (name : String) (text : Document) (settings : Settings) : Buffer :=
  { document := text, session := .start settings, name }

/-- An empty buffer. -/
def new (name : String) (settings : Settings) : Buffer := ofText name .empty settings

/-- A buffer with the contents of a file. -/
def ofFile (path : String) (contents : Document) (settings : Settings) : Buffer :=
  { ofText ((Path.fileName? path).getD "unnamed") contents settings with filename := some path }

/-- Number of chars. -/
def length (b : Buffer) : Nat := b.document.length

/-! ## Languages -/

/-- Highlights with a grammar. -/
def setGrammar (b : Buffer) (g : Grammar) : Buffer :=
  { b with language := some g.name, session := b.session.setGrammar b.document g }

/-- Switches to a language of a catalog. -/
def setLanguage (b : Buffer) (catalog : Catalog) (name : String) : Except Failure Buffer :=
  (catalog.require name).map b.setGrammar

/-- Picks the language by the extension of the file, and answers it if one was found. -/
def detectLanguage (b : Buffer) (catalog : Catalog) : Buffer × Option String :=
  match b.filename.bind catalog.detect? |>.bind catalog.get? with
  | some g =>
    let b := b.setGrammar g
    (b, b.language)
  | none => (b, none)

/-! ## Edits -/

/-- Puts text in at an offset, at the end when that lies past it. -/
def insert (b : Buffer) (pos : Nat) (text : Array Char) : Buffer :=
  let pos := min pos b.length
  if text.isEmpty then b
  else
    let document := b.document.insert pos text
    { b with document, modified := true, session := b.session.onInsert document pos text.size }

/-- Takes the chars of a range out, and answers them. -/
def delete (b : Buffer) (range : Extent) : Buffer × Array Char :=
  let range := range.clampTo b.length
  let cut := b.document.remove range
  if cut.2.isEmpty then (b, cut.2)
  else
    ({ b with
        document := cut.1, modified := true
        session := b.session.onDelete cut.1 range.start range.stop }, cut.2)

/-! ## Highlighting -/

/-- The spans of a range. -/
def highlight (b : Buffer) (range : Extent) : Buffer × List Span :=
  let (session, spans) := b.session.highlight b.document range
  ({ b with session }, spans)

/-- Asks for a range to be kept highlighted in the background. -/
def request (b : Buffer) (range : Extent) : Buffer :=
  { b with session := b.session.request range }

/-- One background quantum of a given length; answers whether work is left. -/
def runBackground (b : Buffer) (nanoseconds : Nat) : Buffer × Bool :=
  let (session, more) := b.session.runBackground b.document nanoseconds
  ({ b with session }, more)

/-- Quanta that drain the work of a session whose table is being completed: as many as batches,
    and one to render. -/
def quantumLimit (b : Buffer) : Nat := Session.roundLimit b.document + 2

/-- Drains all background work and counts the quanta; none when it does not end. -/
def runUntilIdle (b : Buffer) (nanoseconds : Nat) : Option (Buffer × Nat) :=
  (b.session.drain b.document nanoseconds b.quantumLimit).map fun (session, quanta) =>
    ({ b with session }, quanta)

/-- Turns highlighting on or off. -/
def setHighlighting (b : Buffer) (on : Bool) : Buffer :=
  { b with session := b.session.setEnabled b.document on }

/-- The bracket that matches the one before `pos`, within `limit` chars. -/
def findBracket (b : Buffer) (pos : Nat) (limit : Option Nat) : Buffer × Option Nat :=
  let (session, found) := b.session.matchingBracket b.document pos limit
  ({ b with session }, found)

/-- The bracket that matches the one before `pos`, within the reach of the settings. -/
def matchingBracket (b : Buffer) (pos : Nat) : Buffer × Option Nat :=
  b.findBracket pos (some b.session.settings.bracketReach)

/-- The bracket that matches the one before `pos`, however far away. -/
def jumpToBracket (b : Buffer) (pos : Nat) : Buffer × Option Nat := b.findBracket pos none

/-! ## Files -/

/-- The path and contents to write when the buffer is saved; it counts as saved afterwards. -/
def save (b : Buffer) : Except Failure (Buffer × String × String) :=
  match b.filename with
  | some path => .ok ({ b with modified := false }, path, b.document.text)
  | none => .error (.misuse .noFileName)

end Buffer

end Highlighter
