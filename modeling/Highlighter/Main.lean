import Highlighter.CommandLine

/-! # The program — files and streams around a run -/

namespace Highlighter.Program

/-- Reads a file as text. -/
def readText (path : String) : IO (Except FileFault String) := do
  try
    let bytes ← IO.FS.readBinFile path
    match String.fromUTF8? bytes with
    | some s => return .ok s
    | none => return .error .notUtf8
  catch e =>
    match e with
    | .noFileOrDirectory .. => return .error .notFound
    | .inappropriateType _ code _ =>
      return .error (if code = 20 then .notDirectory else .isDirectory)
    | .invalidArgument _ 36 _ => return .error .nameTooLong
    | _ => return .error (.other (toString e))

/-- The contents of some files, by path. -/
def readAll (paths : List String) : IO (List (String × Except FileFault String)) :=
  paths.mapM fun path => do return (path, ← readText path)

/-- The settings file of the home directory, if it can be read. -/
def readHome : IO (Option String) := do
  match ← IO.getEnv "HOME" with
  | some home =>
    match ← readText (home ++ "/" ++ Settings.fileName) with
    | .ok s => return some s
    | .error _ => return none
  | none => return none

end Highlighter.Program

open Highlighter in
def main (args : List String) : IO UInt32 := do
  let contents ← Program.readAll (CommandLine.paths args)
  let home ← Program.readHome
  let files : CommandLine.Files := fun path => (contents.lookup path).getD (.error .notFound)
  let outcome := CommandLine.run files home args
  let out ← IO.getStdout
  out.putStr outcome.output
  out.flush
  IO.eprint outcome.complaint
  return outcome.status.toUInt32
