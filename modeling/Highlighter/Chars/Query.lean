import Highlighter.Chars.Age
import Highlighter.Chars.Boundaries
import Highlighter.Chars.Script

/-! # Property queries — char sets by name

    A name stands for a binary property, else for a general category, else for a script;
    a name with a value picks one class of a property with many.  Names are matched
    loosely: case, blanks, dashes, underscores and a leading "is" do not count. -/

namespace Highlighter.Chars

/-- A name as it is looked up: lower case ASCII without blanks, dashes and underscores, and
    without a leading "is" unless only a "c" follows it. -/
def looseName (name : String) : String :=
  let cs := name.toList
  let prefixed := cs.take 2 == ['i', 's'] || cs.take 2 == ['I', 'S'] || cs.take 2 == ['i', 'S'] ||
    cs.take 2 == ['I', 's']
  let kept := ((if prefixed then cs.drop 2 else cs).filter fun c =>
    c.toNat < 128 && c != ' ' && c != '_' && c != '-').map Char.toLower
  String.ofList (if prefixed && kept == ['c'] then ['i', 's', 'c'] else kept)

/-- The set that a table has under a name. -/
def byName? (table : List (List String × CharSet)) (name : String) : Option CharSet :=
  (table.find? fun (names, _) => names.contains name).map (·.2)

def scriptSet? (name : String) : Option CharSet := (Script.ofName? name).map (·.chars)

/-- The set that a name stands for. -/
def namedSet? (name : String) : Option CharSet :=
  let key := looseName name
  byName? Property.named key <|> byName? Category.named key <|> scriptSet? key

/-- The chars that have a value of a property. -/
def valuedSet? (property value : String) : Option CharSet :=
  let key := looseName value
  match looseName property with
  | "gc" | "generalcategory" => byName? Category.named key
  | "sc" | "script" => scriptSet? key
  | "scx" | "scriptextensions" => (Script.ofName? key).map (·.extended)
  | "age" => Age.upTo? key
  | "gcb" | "graphemeclusterbreak" => byName? Boundaries.grapheme key
  | "wb" | "wordbreak" => byName? Boundaries.word key
  | "sb" | "sentencebreak" => byName? Boundaries.sentence key
  | _ => none

end Highlighter.Chars
