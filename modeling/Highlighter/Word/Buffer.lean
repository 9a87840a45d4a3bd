import Highlighter.Buffer
import Highlighter.Word.Session

/-! # Buffers in words — edits and reading -/

namespace Highlighter.Word

/-- Puts text in at an offset, at the end when that lies past it. -/
def insert (b : Buffer) (pos : Nat) (text : Array Char) : Checked Buffer :=
  let pos := min pos b.length
  if text.isEmpty then return b
  else do
    let document := b.document.insert pos text
    return { b with
      document, modified := true, session := ← onInsert document b.session pos text.size }

/-- Takes the chars of a range out, and answers them. -/
def delete (b : Buffer) (range : Extent) : Checked (Buffer × Array Char) :=
  let range := range.clampTo b.length
  let cut := b.document.remove range
  if cut.2.isEmpty then return (b, cut.2)
  else do
    return ({ b with
      document := cut.1, modified := true
      session := ← onDelete cut.1 b.session range.start range.stop }, cut.2)

/-- The spans of a range. -/
def spansOf (b : Buffer) (range : Extent) : Checked (Buffer × List Span) := do
  let (session, spans) ← highlight b.document b.session range
  return ({ b with session }, spans)

/-- One background quantum of a given length; answers whether work is left. -/
def runQuantum (b : Buffer) (nanoseconds : Nat) : Checked (Buffer × Bool) := do
  let (session, more) ← runBackground b.document b.session nanoseconds
  return ({ b with session }, more)

/-- Drains all background work and counts the quanta; none when it does not end. -/
def runUntilIdle (b : Buffer) (nanoseconds : Nat) : Checked (Option (Buffer × Nat)) := do
  return (← drain b.document nanoseconds b.quantumLimit b.session).map fun (session, quanta) =>
    ({ b with session }, quanta)

/-- The bracket that matches the one before `pos`, within `limit` chars. -/
def findBracket (b : Buffer) (pos : Nat) (limit : Option Nat) : Checked (Buffer × Option Nat) := do
  let (session, found) ← matchingBracket b.document b.session pos limit
  return ({ b with session }, found)

end Highlighter.Word
