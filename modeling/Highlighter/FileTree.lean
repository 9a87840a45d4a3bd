import Highlighter.Failure
import Highlighter.Path

/-! # File trees — a fixed set of files

    Files by path below one directory, with the answers that reading a path gives: a file's
    contents, or the fault of a path that leads nowhere, to a directory, or through a file.
    A path is followed part by part, and only a directory has parts. -/

namespace Highlighter

/-- Contents of files, by the components of their paths. -/
structure FileTree where
  files : List (List String × String)
  deriving Repr, Inhabited

namespace FileTree

/-- The tree of some files by path. -/
def ofFiles (files : List (String × String)) : FileTree :=
  ⟨files.map fun (path, contents) => (Path.components path, contents)⟩

/-- A file of the tree, or a directory above one. -/
def holds (t : FileTree) (place : List String) : Bool :=
  place.isEmpty || t.files.any fun f => place.isPrefixOf f.1

/-- A place with something below it; the tree itself is one. -/
def isDirectory (t : FileTree) (place : List String) : Bool :=
  place.isEmpty || t.files.any fun f => place.isPrefixOf f.1 && f.1 != place

/-- Most bytes of a path, and of a part of one. -/
def pathLimit : Nat := 4095

@[inherit_doc pathLimit]
def partLimit : Nat := 255

/-- The part of a path leads on without a name. -/
def isPlain (part : String) : Bool := part = "" ∨ part = "." ∨ part = ".."

/-- The fault of a name that nothing has. -/
def missing (part : String) : FileFault :=
  if partLimit < part.utf8ByteSize then .nameTooLong else .notFound

/-- The fault of a path outside the tree, where no name is known: it is a directory or missing. -/
def outside (parts : List String) : FileFault :=
  match parts.find? (!isPlain ·) with
  | some part => missing part
  | none => .isDirectory

/-- Follows the parts of a path from a place, given last part first.  Nothing is known of what
    lies outside the tree, but that the directory above it is one. -/
def follow (t : FileTree) : (place : List String) → (parts : List String) →
    Except FileFault (List String)
  | place, [] => .ok place.reverse
  | place, part :: rest =>
    if !t.isDirectory place.reverse then .error .notDirectory
    else if part = "" ∨ part = "." then t.follow place rest
    else if part = ".." then
      match place with
      | _ :: above => t.follow above rest
      | [] => .error (outside rest)
    else if t.holds (part :: place).reverse then t.follow (part :: place) rest
    else .error (missing part)

/-- What reading a path gives. -/
def read (t : FileTree) (path : String) : Except FileFault String :=
  let parts := path.splitOn "/"
  if path.isEmpty then .error .notFound
  else if pathLimit < path.utf8ByteSize then .error .nameTooLong
  else if parts.head? = some "" then .error (outside parts)
  else
    match t.follow [] parts with
    | .error fault => .error fault
    | .ok place =>
      match t.files.lookup place with
      | some contents => .ok contents
      | none => .error .isDirectory

end FileTree

end Highlighter
