import Highlighter.Span
import Highlighter.Style

/-! # Terminal output — styled text as commands

    Text is printed in runs of one look.  A run with a look sets its colours and attributes,
    prints, and resets them; plain text is printed as it is.  With a width, chars that do
    not fit into their line any more are left out. -/

namespace Highlighter

/-- The colours that a terminal can be told: its own, and sixteen by their names there. -/
inductive TermColor where
  | reset
  | black | darkRed | darkGreen | darkYellow | darkBlue | darkMagenta | darkCyan | grey
  | darkGrey | red | green | yellow | blue | magenta | cyan | white
  deriving DecidableEq, Repr, Inhabited

/-- The colour on a terminal.  The bright colours are the plain ones there, the others dark. -/
def Color.onTerminal : Color → TermColor
  | .default => .reset
  | .black => .black
  | .red => .darkRed
  | .green => .darkGreen
  | .yellow => .darkYellow
  | .blue => .darkBlue
  | .magenta => .darkMagenta
  | .cyan => .darkCyan
  | .white => .grey
  | .brightBlack => .darkGrey
  | .brightRed => .red
  | .brightGreen => .green
  | .brightYellow => .yellow
  | .brightBlue => .blue
  | .brightMagenta => .magenta
  | .brightCyan => .cyan
  | .brightWhite => .white

namespace TermColor

/-- Number of a colour in the palette; the terminal's own has none. -/
def code? : TermColor → Option Nat
  | .reset => none
  | .black => some 0
  | .darkRed => some 1
  | .darkGreen => some 2
  | .darkYellow => some 3
  | .darkBlue => some 4
  | .darkMagenta => some 5
  | .darkCyan => some 6
  | .grey => some 7
  | .darkGrey => some 8
  | .red => some 9
  | .green => some 10
  | .yellow => some 11
  | .blue => some 12
  | .magenta => some 13
  | .cyan => some 14
  | .white => some 15

end TermColor

/-- What a terminal is told. -/
inductive Command where
  | foreground (c : TermColor)
  | background (c : TermColor)
  | bold
  | italic
  | underline
  | print (run : List Char)
  | resetAttributes
  | resetColors
  deriving DecidableEq, Repr

namespace Command

/-- A control sequence. -/
def control (body : String) : String := "\x1b[" ++ body ++ "m"

/-- The chars that a command is sent as. -/
def render : Command → String
  | .foreground c => control ((c.code?.map fun n => "38;5;" ++ toString n).getD "39")
  | .background c => control ((c.code?.map fun n => "48;5;" ++ toString n).getD "49")
  | .bold => control "1"
  | .italic => control "3"
  | .underline => control "4"
  | .print run => String.ofList run
  | .resetAttributes => control "0"
  | .resetColors => control "0"

end Command

/-- The commands that print a run in a look; an empty run takes none. -/
def runCommands (run : List Char) (look : Option Style) : List Command :=
  if run.isEmpty then []
  else
    match look with
    | some s =>
      if s.isPlain then [.print run]
      else
        (if s.fg = .default then [] else [.foreground s.fg.onTerminal]) ++
          (if s.bg = .default then [] else [.background s.bg.onTerminal]) ++
          (if s.bold then [.bold] else []) ++
          (if s.italic then [.italic] else []) ++
          (if s.underline then [.underline] else []) ++
          [.print run, .resetAttributes, .resetColors]
    | none => [.print run]

/-- A printer half way through a text. -/
structure Printer where
  /-- Spans not begun yet. -/
  ahead   : List Span
  /-- The span around the current char. -/
  current : Option Span := none
  /-- Chars of the current run, last first. -/
  run     : List Char := []
  /-- Columns taken in the current line. -/
  column  : Nat := 0
  sent    : Array Command := #[]

namespace Printer

variable (scheme : Scheme)

/-- Sends the current run in the look of a span. -/
def flush (p : Printer) (span : Option Span) : Printer :=
  { p with
    sent := p.sent ++ (runCommands p.run.reverse (span.map fun s => scheme.resolve s.style)).toArray
    run := [] }

/-- Leaves the span that ends at `pos`, and enters the one that begins there. -/
def arrive (p : Printer) (pos : Nat) : Printer :=
  let p :=
    if p.current.any fun s => s.stop ≤ pos then
      { p.flush scheme p.current with current := none }
    else p
  let ahead := p.ahead.dropWhile fun s => s.stop ≤ pos
  let p := { p with ahead }
  match p.current, ahead with
  | none, s :: rest =>
    if s.start ≤ pos then { p.flush scheme none with current := some s, ahead := rest } else p
  | _, _ => p

/-- Takes a char into the run if it fits; a newline always does, and opens a line. -/
def take (columns : Char → Nat) (width : Option Nat) (p : Printer) (c : Char) : Printer :=
  if c = '\n' then { p with run := c :: p.run, column := 0 }
  else
    let column := p.column + columns c
    if width.any fun w => w < column then p else { p with run := c :: p.run, column }

/-- Reads the chars from `pos` on. -/
def readAll (columns : Char → Nat) (width : Option Nat) :
    Printer → (pos : Nat) → List Char → Printer
  | p, _, [] => p
  | p, pos, c :: cs =>
    readAll columns width ((p.arrive scheme pos).take columns width c) (pos + 1) cs

end Printer

/-- The commands that print a text with sorted, disjoint spans, in lines of `width` columns. -/
def printHighlighted (columns : Char → Nat) (scheme : Scheme) (text : List Char)
    (spans : List Span) (width : Option Nat) : List Command :=
  let p := Printer.readAll scheme columns width { ahead := spans } 0 text
  (p.flush scheme p.current).sent.toList

end Highlighter
