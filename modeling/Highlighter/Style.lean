/-! # Styles — how a style name looks on a terminal

    Grammars speak of style names (`comment`, `string`, …).  A scheme maps names to
    looks; a name it does not know has the plain look.  The last setting of a name wins. -/

namespace Highlighter

/-- The sixteen terminal colours, and the terminal's own. -/
inductive Color where
  | default
  | black | red | green | yellow | blue | magenta | cyan | white
  | brightBlack | brightRed | brightGreen | brightYellow
  | brightBlue | brightMagenta | brightCyan | brightWhite
  deriving DecidableEq, Repr, Inhabited

namespace Color

/-- Every colour with the name it is known by outside. -/
def names : List (Color × String) :=
  [(default, "Default"),
   (black, "Black"), (red, "Red"), (green, "Green"), (yellow, "Yellow"),
   (blue, "Blue"), (magenta, "Magenta"), (cyan, "Cyan"), (white, "White"),
   (brightBlack, "BrightBlack"), (brightRed, "BrightRed"), (brightGreen, "BrightGreen"),
   (brightYellow, "BrightYellow"), (brightBlue, "BrightBlue"),
   (brightMagenta, "BrightMagenta"), (brightCyan, "BrightCyan"), (brightWhite, "BrightWhite")]

def name (c : Color) : String := (names.lookup c).getD ""

def ofName? (s : String) : Option Color :=
  (names.find? fun entry => entry.2 == s).map Prod.fst

end Color

/-- Colours and attributes of a run of text. -/
structure Style where
  fg        : Color := .default
  bg        : Color := .default
  bold      : Bool := false
  italic    : Bool := false
  underline : Bool := false
  deriving DecidableEq, Repr, Inhabited

namespace Style

/-- No colour and no attribute. -/
def plain : Style := {}

def isPlain (s : Style) : Bool := s = plain

end Style

/-- Looks by style name. -/
structure Scheme where
  looks : List (String × Style)
  deriving Repr

namespace Scheme

/-- The scheme in which every name is plain. -/
def empty : Scheme := ⟨[]⟩

/-- Gives `name` a look, in place of any earlier one. -/
def set (s : Scheme) (name : String) (look : Style) : Scheme :=
  ⟨(name, look) :: s.looks.filter fun entry => entry.1 != name⟩

/-- The look of `name`, plain when it has none. -/
def resolve (s : Scheme) (name : String) : Style := (s.looks.lookup name).getD .plain

/-- The looks used when the caller brings no scheme. -/
def standard : Scheme :=
  [("comment", { fg := .brightBlack, italic := true }),
   ("string", { fg := .green }),
   ("char", { fg := .green }),
   ("escape", { fg := .brightYellow }),
   ("number", { fg := .cyan }),
   ("keyword", { fg := .magenta, bold := true }),
   ("type", { fg := .yellow }),
   ("preprocessor", { fg := .brightMagenta }),
   ("constant", { fg := .brightRed }),
   ("operator", { fg := .brightWhite }),
   ("attribute", { fg := .brightBlue }),
   ("macro", { fg := .brightCyan }),
   ("lifetime", { fg := .brightYellow }),
   ("section", { fg := .blue, bold := true }),
   ("key", { fg := .yellow })].foldl (fun s (name, look) => s.set name look) empty

end Scheme

end Highlighter
