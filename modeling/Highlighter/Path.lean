/-! # Paths — names of files

    A path is read by its components: the parts between slashes, without empty ones and
    without dots that stand for the directory they are in. -/

namespace Highlighter.Path

/-- The components of a path. -/
def components (path : String) : List String :=
  ((path.toList.splitOn '/').map String.ofList).filter fun part => part != "" && part != "."

/-- The last component, unless it names a parent directory. -/
def fileName? (path : String) : Option String :=
  (components path).getLast?.filter (· != "..")

/-- What follows the last dot of the file name; none when there is no dot but a leading one. -/
def extension? (path : String) : Option String := do
  let name := (← fileName? path).toList
  let ext := (name.reverse.takeWhile (· != '.')).reverse
  if name.length ≤ ext.length + 1 then none else some (String.ofList ext)

end Highlighter.Path
