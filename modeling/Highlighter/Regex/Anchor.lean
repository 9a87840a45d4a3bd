import Highlighter.Chars.Word

/-! # Anchors — conditions on a position

    An anchor matches the empty text where the chars on both sides of a position meet its
    condition: at an end of the text or of a line, or at an edge of a word. -/

namespace Highlighter

/-- Conditions on a position that look at the neighbouring words. -/
inductive WordEdge where
  | boundary | inner | start | stop | startHalf | stopHalf
  deriving DecidableEq, Repr

/-- Conditions on a position, told from the chars on both sides of it. -/
inductive Anchor where
  | textStart | textEnd
  | lineStart | lineEnd
  /-- Line edges where a carriage return, a newline, or the two together end a line. -/
  | crlfLineStart | crlfLineEnd
  | word (edge : WordEdge) (ascii : Bool)
  deriving DecidableEq, Repr

namespace Anchor

/-- The condition holds between `before` and `after`; none stands for an end of the text. -/
def holds (a : Anchor) (before after : Option Char) : Bool :=
  match a with
  | .textStart => before.isNone
  | .textEnd => after.isNone
  | .lineStart => before.isNone || before == some '\n'
  | .lineEnd => after.isNone || after == some '\n'
  | .crlfLineStart =>
    before.isNone || before == some '\n' || (before == some '\r' && after != some '\n')
  | .crlfLineEnd =>
    after.isNone || after == some '\r' || (after == some '\n' && before != some '\r')
  | .word edge ascii =>
    let inWord := fun (c : Option Char) =>
      c.any fun c => if ascii then Chars.isAsciiWord c else Chars.isWord c
    match edge with
    | .boundary => inWord before != inWord after
    | .inner => inWord before == inWord after
    | .start => !inWord before && inWord after
    | .stop => inWord before && !inWord after
    | .startHalf => !inWord before
    | .stopHalf => !inWord after

end Anchor

end Highlighter
