import Highlighter.Document
import Highlighter.Escape

/-! # Encoded text — the search past escapes, by byte offsets

    Where a matcher counts bytes, so does a search that asks it again and again.  Only some
    byte offsets lie between two chars, and a text cannot be taken apart at any other: the
    answer is none then.  The matcher is a function from the byte offset where it begins to
    the match that it finds.  Nothing is known of it here, and so a search is a relation, of
    the offset it begins at, the offsets it asks from, and its answer. -/

namespace Highlighter
namespace Encoded

/-- The chars before a byte offset, and those from it on; none inside the code of a char, and past
    the end. -/
def splitAt? : List Char → (byte : Nat) → Option (List Char × List Char)
  | [], byte => if byte = 0 then some ([], []) else none
  | c :: cs, byte =>
    if byte = 0 then some ([], c :: cs)
    else if c.utf8Size ≤ byte then
      (splitAt? cs (byte - c.utf8Size)).map fun parts => (c :: parts.1, parts.2)
    else none

/-- The byte offset behind the char at a byte offset; at the end of the text, one past it. -/
def next? (text : Array Char) (byte : Nat) : Option Nat :=
  (splitAt? text.toList byte).map fun parts =>
    match parts.2 with
    | [] => byteLength text + 1
    | c :: _ => byte + c.utf8Size

/-- An odd run of `escape` ends just before a byte offset. -/
def isEscaped? (text : Array Char) (escape : Char) (byte : Nat) : Option Bool :=
  (splitAt? text.toList byte).map fun parts =>
    (parts.1.reverse.takeWhile (· == escape)).length % 2 == 1

/-- What one round of a search comes to: an answer, or the offset where the next round begins. -/
inductive Round where
  | done (answer : Option Extent)
  | again (byte : Nat)
  deriving DecidableEq, Repr

variable (find : Nat → Option Extent) (text : Array Char) (escape : Option Char)

/-- One round asks for the next match, and passes over it when it is escaped. -/
def round (byte : Nat) : Option Round :=
  match find byte with
  | none => some (.done none)
  | some m =>
    match escape with
    | none => some (.done (some m))
    | some e => do
      if ← isEscaped? text e m.start then
        return .again (← next? text m.start)
      else
        return .done (some m)

/-- A search from a byte offset, with the offsets it asks from and its answer. -/
inductive Searches : (byte : Nat) → (asked : List Nat) → (answer : Option Extent) → Prop
  | past {byte : Nat} (hpast : byteLength text < byte) : Searches byte [] none
  | done {byte : Nat} {answer : Option Extent} (hin : byte ≤ byteLength text)
      (hround : round find text escape byte = some (.done answer)) : Searches byte [byte] answer
  | again {byte byte' : Nat} {asked : List Nat} {answer : Option Extent}
      (hin : byte ≤ byteLength text) (hround : round find text escape byte = some (.again byte'))
      (hrest : Searches byte' asked answer) : Searches byte (byte :: asked) answer

end Encoded

end Highlighter
