import Highlighter.Failure
import Highlighter.Regex.Matcher

/-! # Grammars — languages as ordered rules

    A grammar lists the rules of its regions (comments, strings), each opened by one
    pattern and closed by another, the rules of its flat tokens (keywords, numbers), and
    the char whose odd run before a region pattern hides it.  Order matters: of two rules
    that match at one place the earlier wins. -/

namespace Highlighter

/-- A region opened by the pattern `start` and closed by the pattern `stop`. -/
structure RegionRule where
  id    : String
  start : String
  stop  : String
  style : String
  deriving DecidableEq, Repr

/-- A token matched by one pattern. -/
structure TokenRule where
  id      : String
  pattern : String
  style   : String
  deriving DecidableEq, Repr

/-- A language: its name, the file extensions it goes by, and its rules. -/
structure Grammar where
  name       : String
  extensions : List String := []
  regions    : List RegionRule := []
  tokens     : List TokenRule := []
  escape     : Option Char := none
  deriving DecidableEq, Repr, Inhabited

/-- A region rule with its patterns read. -/
structure RegionDef where
  id     : String
  source : String
  start  : Matcher
  stop   : Matcher
  style  : String

/-- A token rule with its pattern read. -/
structure TokenDef where
  id    : String
  regex : Matcher
  style : String

section Reading

variable (compile : String → Option Matcher)

/-- Reads one pattern of a definition. -/
def readPattern (id : String) (part : PatternPart) (source : String) : Except Failure Matcher :=
  match compile source with
  | some r => .ok r
  | none => .error (.pattern id part)

/-- Reads the patterns of a region rule, the opening one first. -/
def RegionRule.readBy (r : RegionRule) : Except Failure RegionDef := do
  let start ← readPattern compile r.id .start r.start
  let stop ← readPattern compile r.id .stop r.stop
  return { id := r.id, source := r.start, start, stop, style := r.style }

def TokenRule.readBy (r : TokenRule) : Except Failure TokenDef := do
  let regex ← readPattern compile r.id .token r.pattern
  return { id := r.id, regex, style := r.style }

/-- Reads every pattern; the failure is that of the first bad one. -/
def Grammar.validateBy (g : Grammar) : Except Failure Unit := do
  for r in g.regions do
    let _ ← r.readBy compile
  for r in g.tokens do
    let _ ← r.readBy compile

end Reading

def RegionRule.read (r : RegionRule) : Except Failure RegionDef := r.readBy Regex.compile?

def TokenRule.read (r : TokenRule) : Except Failure TokenDef := r.readBy Regex.compile?

/-- Reads every pattern as a regular expression. -/
def Grammar.validate (g : Grammar) : Except Failure Unit := g.validateBy Regex.compile?

end Highlighter
