import Highlighter.Toml.Scalar

/-! # Marked tables — datetimes in the form of a table

    A table whose first key is a certain mark stands for the datetime that this key has as a
    string, whatever its other keys are.  The table of a whole file is never taken so. -/

namespace Highlighter.Toml

/-- The key that marks a table as a datetime. -/
def datetimeKey : String := "$__toml_private_datetime"

/-- The datetime that a mark has as its value: a string, in the loose form. -/
def markedDatetime? : Value → Option Value
  | .string s => if isDatetime true s.toList then some (.datetime s) else none
  | _ => none

mutual

/-- The value with datetimes for marked tables; none when a mark has no datetime. -/
def Value.unmark : Value → Option Value
  | .array items => (unmarkItems items).map .array
  | .table ((key, v) :: rest) =>
    if key = datetimeKey then markedDatetime? v
    else do return .table ((key, ← v.unmark) :: (← unmarkEntries rest))
  | v => some v

def unmarkItems : List Value → Option (List Value)
  | [] => some []
  | v :: rest => do return (← v.unmark) :: (← unmarkItems rest)

/-- The entries with datetimes for the marked tables among their values. -/
def unmarkEntries : List (String × Value) → Option (List (String × Value))
  | [] => some []
  | (key, v) :: rest => do return (key, ← v.unmark) :: (← unmarkEntries rest)

end

end Highlighter.Toml
