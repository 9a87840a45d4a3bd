/-! # TOML values — what a configuration file says

    A file is a table from keys to values.  Nothing here computes with floating-point
    numbers or dates, so those keep the text they were written with. -/

namespace Highlighter.Toml

inductive Value where
  | string (s : String)
  | integer (n : Int)
  | float (text : String)
  | boolean (b : Bool)
  | datetime (text : String)
  | array (items : List Value)
  | table (entries : List (String × Value))
  deriving Repr, Inhabited

/-- Keys with their values; a key occurs once. -/
abbrev Table := List (String × Value)

namespace Value

def asString? : Value → Option String
  | .string s => some s
  | _ => none

def asTable? : Value → Option Table
  | .table entries => some entries
  | _ => none

end Value

/-- The value of a key. -/
def Table.get? (t : Table) (key : String) : Option Value := t.lookup key

end Highlighter.Toml
