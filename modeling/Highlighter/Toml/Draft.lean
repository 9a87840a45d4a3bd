import Highlighter.Toml.Value

/-! # Drafts — tables while a file is being read

    A table can come to be in four ways: by its own header, on the way to the header of a
    deeper table, by a dotted key, or as an element of an array of tables.  Which it was
    decides how later lines may add to it, so drafts remember it; `Draft.toTable` forgets
    it in the end. -/

namespace Highlighter.Toml

/-- A value under construction. -/
inductive Draft where
  /-- A finished value; nothing can be added to it. -/
  | value (v : Value)
  /-- A table: `implicit` until a header of its own comes, `dotted` when a dotted key made it. -/
  | table (implicit dotted : Bool) (entries : List (String × Draft))
  /-- The tables of an array, last first. -/
  | tables (items : List Draft)
  deriving Inhabited

namespace Draft

/-- A table that a header begins. -/
def headed : Draft := .table false false []

/-- Puts a draft in place of the one a key has, or at the end. -/
def put (entries : List (String × Draft)) (key : String) (d : Draft) : List (String × Draft) :=
  match entries with
  | [] => [(key, d)]
  | (k, old) :: rest => if k = key then (k, d) :: rest else (k, old) :: put rest key d

/-- Applies `change` to the entries of the table at a path below a table, making the tables on
    the way that do not exist.  A header's path leads into the last table of an array; a dotted
    key may pass only through tables that have no header. -/
def within (dotted : Bool) (change : (dotted : Bool) → List (String × Draft) →
    Option (List (String × Draft))) : (path : List String) → Draft → Option Draft
  | _, .value _ => none
  | path, .tables (last :: before) =>
    match last with
    | .table implicit isDotted entries =>
      (go path isDotted entries).map fun entries =>
        .tables (.table implicit isDotted entries :: before)
    | _ => none
  | _, .tables [] => none
  | path, .table implicit isDotted entries =>
    (go path isDotted entries).map (.table implicit isDotted)
where
  go : (path : List String) → Bool → List (String × Draft) → Option (List (String × Draft))
    | [], isDotted, entries => change isDotted entries
    | key :: path, _, entries =>
      match entries.lookup key with
      | none => (go path dotted []).map fun es => put entries key (.table true dotted es)
      | some (.value _) => none
      | some (.tables (.table implicit isDotted es :: before)) =>
        (go path isDotted es).map fun es =>
          put entries key (.tables (.table implicit isDotted es :: before))
      | some (.tables _) => none
      | some (.table implicit isDotted es) =>
        if dotted && !implicit then none
        else (go path isDotted es).map fun es => put entries key (.table implicit isDotted es)

/-- Opens the table of a header: a new one, or one made on the way to a deeper header. -/
def openTable (root : Draft) (path : List String) (key : String) : Option Draft :=
  root.within false (fun _ entries =>
    match entries.lookup key with
    | none => some (put entries key headed)
    | some (.table true false es) => some (put entries key (.table false false es))
    | some _ => none) path

/-- Begins one more table of the array of a header. -/
def openElement (root : Draft) (path : List String) (key : String) : Option Draft :=
  root.within false (fun _ entries =>
    match entries.lookup key with
    | none => some (put entries key (.tables [headed]))
    | some (.tables items) => some (put entries key (.tables (headed :: items)))
    | some _ => none) path

/-- Sets a dotted key of a table: the last table on its way must be one that dotted keys made,
    and the key must be new. -/
def assign (path : List String) (key : String) (v : Value) (table : Draft) : Option Draft :=
  table.within true (fun isDotted entries =>
    if isDotted == path.isEmpty || (entries.lookup key).isSome then none
    else some (put entries key (.value v))) path

/-- Sets a dotted key of the table that a header has opened. -/
def assignBelow (root : Draft) (header path : List String) (key : String) (v : Value) :
    Option Draft :=
  root.within false (fun isDotted entries =>
    match assign path key v (.table false isDotted entries) with
    | some (.table _ _ entries) => some entries
    | _ => none) header

/-! ## Finished tables -/

mutual

def toValue : Draft → Value
  | .value v => v
  | .table _ _ entries => .table (toEntries entries)
  | .tables items => .array (toItems items).reverse

def toEntries : List (String × Draft) → List (String × Value)
  | [] => []
  | (key, d) :: rest => (key, toValue d) :: toEntries rest

def toItems : List Draft → List Value
  | [] => []
  | d :: rest => toValue d :: toItems rest

end

/-- The finished table of a draft. -/
def toTable (d : Draft) : Table := (toValue d).asTable?.getD []

end Draft

end Highlighter.Toml
