import Highlighter.Buffer
import Highlighter.Chars.Width
import Highlighter.Grammar.File
import Highlighter.Settings.File
import Highlighter.Terminal

/-! # Command line — printing a file with highlighting

    Arguments become options; options and the files they name become an outcome: what goes
    to standard output, and the failure if there is one.  Reading files and writing the
    outcome are left to the caller. -/

namespace Highlighter
namespace CommandLine

/-- Name of the program, as it speaks of itself. -/
def programName : String := "regionhl"

def version : String := "0.1.0"

/-- What the arguments ask for. -/
structure Options where
  language : Option String := none
  grammar  : Option String := none
  settings : Option String := none
  width    : Option Nat := none
  bracket  : Option Nat := none
  list     : Bool := false
  check    : Bool := false
  verbose  : Bool := false
  file     : Option String := none
  deriving DecidableEq, Repr, Inhabited

/-- Arguments either ask for a text about the program or for work on files. -/
inductive Request where
  | help
  | version
  | work (o : Options)
  deriving DecidableEq, Repr

/-- A number below 2⁶⁴ in decimal digits, perhaps behind a plus. -/
def readNumber? (s : String) : Option Nat :=
  let digits := match s.toList with
    | '+' :: ds => ds
    | ds => ds
  let n : Nat := digits.foldl (fun n c => n * 10 + (c.toNat - '0'.toNat)) 0
  if !digits.isEmpty && digits.all Char.isDigit && n < 0x10000000000000000 then some n else none

def number (flag value : String) : Except Failure Nat :=
  match readNumber? value with
  | some n => .ok n
  | none => .error (.misuse (.notANumber flag value))

/-- Options that a value follows. -/
def isValued (arg : String) : Bool :=
  ["--lang", "--grammar", "--config", "--width", "--bracket"].contains arg

/-- Sets an option that has a value. -/
def setValue (o : Options) (flag value : String) : Except Failure Options :=
  if flag = "--lang" then .ok { o with language := some value }
  else if flag = "--grammar" then .ok { o with grammar := some value }
  else if flag = "--config" then .ok { o with settings := some value }
  else if flag = "--width" then (number flag value).map fun n => { o with width := some n }
  else (number flag value).map fun n => { o with bracket := some n }

/-- Sets an option without a value, or the file. -/
def setPlain (o : Options) (arg : String) : Except Failure Options :=
  if arg = "--verbose" ∨ arg = "-v" then .ok { o with verbose := true }
  else if arg = "--list" then .ok { o with list := true }
  else if arg = "--check" then .ok { o with check := true }
  else if arg.toList.head? = some '-' then .error (.misuse (.unknownOption arg))
  else if o.file.isSome then .error (.misuse .secondFile)
  else .ok { o with file := some arg }

/-- Reads the arguments in order; the first that asks for a text, or is wrong, decides. -/
def readArguments (o : Options) : List String → Except Failure Request
  | [] => .ok (.work o)
  | arg :: rest =>
    if arg = "--help" ∨ arg = "-h" then .ok .help
    else if arg = "--version" ∨ arg = "-V" then .ok .version
    else if isValued arg then
      match rest with
      | [] => .error (.misuse (.missingValue arg))
      | value :: rest =>
        match setValue o arg value with
        | .ok o => readArguments o rest
        | .error e => .error e
    else
      match setPlain o arg with
      | .ok o => readArguments o rest
      | .error e => .error e

def helpText : String :=
  "\n".intercalate
    [programName ++ " " ++ version ++ " - incremental syntax highlighter",
     "",
     "Usage: " ++ programName ++ " [OPTIONS] FILE",
     "",
     "Options:",
     "  --lang NAME        Highlight as NAME instead of detecting",
     "  --grammar PATH     Load a grammar from a TOML file",
     "  --config PATH      Read engine settings from PATH",
     "  --width N          Cut lines at N display columns",
     "  --bracket OFFSET   Print the bracket matching the one before OFFSET",
     "  --list             List known languages",
     "  --check            Compile every grammar and report errors",
     "  -v, --verbose      Log debug output to stderr",
     "  -h, --help         Show this help message",
     "  -V, --version      Show version information",
     "",
     "Engine settings are read from ~/" ++ Settings.fileName ++ " when --config is not given.",
     ""]

def versionText : String := programName ++ " " ++ version ++ "\n"

/-- What a run leaves behind: its output so far, and the failure that ended it. -/
structure Outcome where
  output  : String := ""
  failure : Option Failure := none
  deriving Inhabited

namespace Outcome

/-- The status that the program exits with. -/
def status (o : Outcome) : Nat := if o.failure.isSome then 1 else 0

/-- What goes to standard error. -/
def complaint (o : Outcome) : String :=
  match o.failure with
  | some f => "Error: " ++ f.message ++ "\n"
  | none => ""

end Outcome

/-- The files a run can read, by path. -/
abbrev Files := String → Except FileFault String

/-- The contents of a file that the caller named. -/
def readFile (files : Files) (path : String) : Except Failure String :=
  (files path).mapError .file

/-- Settings of a file named on the command line, or of the home directory; a bad file there is
    passed over. -/
def loadSettings (files : Files) (home : Option String) (o : Options) : Except Failure Settings :=
  match o.settings with
  | some path => do Settings.ofToml (← readFile files path)
  | none =>
    match home.map Settings.ofToml with
    | some (.ok settings) => .ok settings
    | _ => .ok {}

/-- The built-in languages and the one of a grammar file, with the name of the latter. -/
def loadCatalog (files : Files) (o : Options) : Except Failure (Catalog × Option String) :=
  match o.grammar with
  | some path => do
    let g ← Grammar.ofToml (← readFile files path)
    return (Catalog.standard.add g, some g.name)
  | none => .ok (.standard, none)

/-- The names of all languages, a line each. -/
def listLanguages (catalog : Catalog) : Outcome :=
  { output := String.join (catalog.names.map (· ++ "\n")) }

/-- Reads the patterns of the languages one after another, up to the first bad one. -/
def checkLanguages (catalog : Catalog) : (names : List String) → Outcome
  | [] => {}
  | name :: rest =>
    match (catalog.require name).bind Grammar.validate with
    | .ok _ =>
      let o := checkLanguages catalog rest
      { o with output := name ++ ": ok\n" ++ o.output }
    | .error e => { failure := some e }

/-- A buffer for the file, in the language asked for, loaded, or told by the file name. -/
def openBuffer (files : Files) (settings : Settings) (catalog : Catalog) (loaded : Option String)
    (o : Options) : Except Failure Buffer :=
  match o.file with
  | none => .error (.misuse .noInputFile)
  | some path => do
    let buffer := Buffer.ofFile path (.ofString (← readFile files path)) settings
    match o.language <|> loaded with
    | some name => buffer.setLanguage catalog name
    | none => return (buffer.detectLanguage catalog).1

/-- The offset of the matching bracket, in words. -/
def showBracket (b : Buffer) (pos : Nat) : Outcome :=
  { output := match (b.matchingBracket pos).2 with
      | some partner => toString partner ++ "\n"
      | none => "no match\n" }

/-- The text of a buffer with its highlighting, once all background work is done. -/
def showBuffer (b : Buffer) (width : Option Nat) : Outcome :=
  let whole : Extent := ⟨0, b.length⟩
  let b := b.request whole
  let b := ((b.runUntilIdle 0).map (·.1)).getD b
  let spans := (b.highlight whole).2
  let commands :=
    printHighlighted Chars.displayWidth .standard b.document.text.toList spans width
  { output := String.join (commands.map Command.render) }

/-- Work on files. -/
def work (files : Files) (home : Option String) (o : Options) : Except Failure Outcome := do
  let settings ← loadSettings files home o
  let (catalog, loaded) ← loadCatalog files o
  if o.list then return listLanguages catalog
  else if o.check then return checkLanguages catalog catalog.names
  else
    let buffer ← openBuffer files settings catalog loaded o
    match o.bracket with
    | some pos => return showBracket buffer pos
    | none => return showBuffer buffer o.width

/-- A whole run: arguments, files by path, and the settings file of the home directory. -/
def run (files : Files) (home : Option String) (args : List String) : Outcome :=
  match readArguments {} args with
  | .error e => { failure := some e }
  | .ok .help => { output := helpText }
  | .ok .version => { output := versionText }
  | .ok (.work o) =>
    match work files home o with
    | .ok outcome => outcome
    | .error e => { failure := some e }

/-- The paths that a run may read. -/
def paths (args : List String) : List String :=
  match readArguments {} args with
  | .ok (.work o) => o.settings.toList ++ o.grammar.toList ++ o.file.toList
  | _ => []

end CommandLine

end Highlighter
