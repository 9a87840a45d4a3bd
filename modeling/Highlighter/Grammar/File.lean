import Highlighter.Grammar
import Highlighter.Toml.Reader

/-! # Grammar files

    A grammar file has a `name`, a list of `extensions`, an `escape` char, and arrays of
    tables for regions (`syntax`) and tokens (`pattern`); all but the name may be left
    out.  `ofTable` reads that format and `toTable` writes it. -/

namespace Highlighter
namespace Grammar

open Toml

/-- A key that must be there and hold a string. -/
def requiredString (t : Table) (key context : String) : Except Failure String :=
  match t.get? key with
  | some (.string s) => .ok s
  | some _ => .error (.grammar (.notAString key context))
  | none => .error (.grammar (.missing key context))

/-- What the items of an array are, all of them; an absent key is an empty array. -/
def readArray {α : Type} (t : Table) (key : String) (fault : GrammarFault)
    (item? : Value → Option α) : Except Failure (List α) :=
  match t.get? key with
  | none => .ok []
  | some (.array items) =>
    items.mapM fun item =>
      match item? item with
      | some x => .ok x
      | none => .error (.grammar fault)
  | some _ => .error (.grammar fault)

def readExtensions (t : Table) : Except Failure (List String) :=
  readArray t "extensions" .extensionsNotStrings Value.asString?

/-- The escape char; an empty text stands for none. -/
def readEscape (t : Table) : Except Failure (Option Char) :=
  match t.get? "escape" with
  | none => .ok none
  | some (.string s) =>
    match s.toList with
    | [] => .ok none
    | [c] => .ok (some c)
    | _ => .error (.grammar .escapeTooLong)
  | some _ => .error (.grammar .escapeNotAString)

def readTables (t : Table) (key : String) : Except Failure (List Table) :=
  readArray t key (.notTables key) Value.asTable?

def readRegion (t : Table) : Except Failure RegionRule := do
  let id ← requiredString t "id" "[[syntax]]"
  let start ← requiredString t "start" id
  let stop ← requiredString t "end" id
  let style ← requiredString t "style" id
  return { id, start, stop, style }

def readToken (t : Table) : Except Failure TokenRule := do
  let id ← requiredString t "id" "[[pattern]]"
  let pattern ← requiredString t "match" id
  let style ← requiredString t "style" id
  return { id, pattern, style }

/-- The grammar of a table. -/
def ofTable (t : Table) : Except Failure Grammar := do
  let name ← requiredString t "name" "grammar"
  let extensions ← readExtensions t
  let escape ← readEscape t
  let regions ← (← readTables t "syntax").mapM readRegion
  let tokens ← (← readTables t "pattern").mapM readToken
  return { name, extensions, regions, tokens, escape }

/-- The grammar of a file's contents. -/
def ofToml (source : String) : Except Failure Grammar :=
  match Toml.parse? source with
  | some t => ofTable t
  | none => .error .toml

/-! ## Writing -/

def regionTable (r : RegionRule) : Table :=
  [("id", .string r.id), ("start", .string r.start), ("end", .string r.stop),
    ("style", .string r.style)]

def tokenTable (r : TokenRule) : Table :=
  [("id", .string r.id), ("match", .string r.pattern), ("style", .string r.style)]

/-- The table that a grammar is written as. -/
def toTable (g : Grammar) : Table :=
  [("name", .string g.name),
   ("extensions", .array (g.extensions.map .string)),
   ("escape", .string (String.ofList g.escape.toList)),
   ("syntax", .array (g.regions.map fun r => .table (regionTable r))),
   ("pattern", .array (g.tokens.map fun r => .table (tokenTable r)))]

end Grammar

end Highlighter
