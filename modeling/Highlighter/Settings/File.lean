import Highlighter.Failure
import Highlighter.Settings
import Highlighter.Toml.Reader

/-! # Settings files

    Settings live in the `engine` table of a file.  What is not there, or has the wrong
    type, keeps its default; numbers out of range go to the nearest end of the range. -/

namespace Highlighter
namespace Settings

open Toml

/-- Name of the settings file in the home directory. -/
def fileName : String := ".regionhl.toml"

/-- The nearest number between two ends. -/
def clamp (lo hi n : Int) : Nat := (max lo (min n hi)).toNat

/-- The number of a key, brought up to `lo`, or the default. -/
def atLeast (t : Table) (key : String) (lo : Int) (default : Nat) : Nat :=
  match t.get? key with
  | some (.integer n) => (max lo n).toNat
  | _ => default

/-- The number of a key between two ends, or the default. -/
def between (t : Table) (key : String) (lo hi : Int) (default : Nat) : Nat :=
  match t.get? key with
  | some (.integer n) => clamp lo hi n
  | _ => default

/-- The milliseconds of a key as microseconds, or the default. -/
def sliceOf (t : Table) (default : Nat) : Nat :=
  match t.get? "time-slice-ms" with
  | some (.integer n) => clamp 1 1000 n * 1000
  | _ => default

/-- The settings of an `engine` table. -/
def ofTable (t : Table) : Settings :=
  let d : Settings := {}
  { sliceMicros := sliceOf t d.sliceMicros
    initialBatch := atLeast t "initial-batch" 1 d.initialBatch
    minimumBatch := atLeast t "minimum-batch" 1 d.minimumBatch
    stepBudget := between t "update-step-budget" 1 100000 d.stepBudget
    bracketReach := atLeast t "bracket-match-limit" 1 d.bracketReach
    highlight := match t.get? "highlight" with
      | some (.boolean on) => on
      | _ => d.highlight }

/-- The settings of a file's contents. -/
def ofToml (source : String) : Except Failure Settings :=
  match Toml.parse? source with
  | some t => .ok (ofTable (((t.get? "engine").bind Value.asTable?).getD []))
  | none => .error .toml

end Settings

end Highlighter
