import Highlighter.Builtin
import Highlighter.Chars.Casing
import Highlighter.Path

/-! # Catalogs — the languages known by name and by file extension

    Adding a grammar replaces the one of the same name and takes over its extensions.  An
    extension belongs to the last grammar that listed it; a grammar that is replaced gives
    up those it no longer lists.  Extensions are compared in lower case. -/

namespace Highlighter

/-- Grammars by name, and the names that extensions belong to. -/
structure Catalog where
  grammars : List (String × Grammar) := []
  owners   : List (String × String) := []
  deriving Repr, Inhabited

namespace Catalog

def empty : Catalog := {}

/-- Gives an extension to a language. -/
def grant (name : String) (owners : List (String × String)) (ext : String) :
    List (String × String) :=
  (Chars.lowercase ext, name) :: owners.filter fun entry => entry.1 != Chars.lowercase ext

/-- Adds a grammar, in place of any of the same name. -/
def add (c : Catalog) (g : Grammar) : Catalog :=
  let owners :=
    if (c.grammars.lookup g.name).isSome then c.owners.filter fun entry => entry.2 != g.name
    else c.owners
  { grammars := (g.name, g) :: c.grammars.filter fun entry => entry.1 != g.name
    owners := g.extensions.foldl (grant g.name) owners }

/-- The catalog of the built-in grammars. -/
def standard : Catalog := Builtin.grammars.foldl add empty

/-- The grammar of a name. -/
def get? (c : Catalog) (name : String) : Option Grammar := c.grammars.lookup name

/-- The grammar of a name, which must be known. -/
def require (c : Catalog) (name : String) : Except Failure Grammar :=
  match c.get? name with
  | some g => .ok g
  | none => .error (.unknownLanguage name)

/-- The language that a file extension belongs to. -/
def ownerOf? (c : Catalog) (ext : String) : Option String := c.owners.lookup (Chars.lowercase ext)

/-- The language of a file, told by its extension. -/
def detect? (c : Catalog) (path : String) : Option String :=
  (Path.extension? path).bind c.ownerOf?

/-- The names of the languages, sorted. -/
def names (c : Catalog) : List String :=
  (c.grammars.map (·.1)).mergeSort fun a b => a ≤ b

end Catalog

end Highlighter
