import Highlighter.Rendering
import Highlighter.Lexicon.Encoded

/-! # Encoded tokens — flat patterns by byte offsets

    The search for tokens by byte offsets: each pattern keeps its next match at hand, the
    best of them is taken, and those that it has overtaken are searched for again.  Which
    match is the best is no matter of what is counted, chars or bytes; and the spans that are
    drawn count in chars, like the boundaries of a scan. -/

namespace Highlighter
namespace Encoded

variable (text : Array Char)

/-- The next match of at least one char at or after a byte offset. -/
inductive Nexts (find : Nat → Option Extent) : (byte : Nat) → (answer : Option Extent) → Prop
  | past {byte : Nat} (hpast : byteLength text < byte) : Nexts find byte none
  | none {byte : Nat} (hin : byte ≤ byteLength text) (hfind : find byte = none) : Nexts find byte none
  | found {byte : Nat} {m : Extent} (hin : byte ≤ byteLength text) (hfind : find byte = some m)
      (hchars : m.isEmpty = false) : Nexts find byte (some m)
  | again {byte byte' : Nat} {m : Extent} {answer : Option Extent} (hin : byte ≤ byteLength text)
      (hfind : find byte = some m) (hempty : m.isEmpty = true)
      (hnext : next? text m.start = some byte') (hrest : Nexts find byte' answer) :
      Nexts find byte answer

/-- The match that a pattern has at hand once the text up to a byte offset is taken. -/
inductive Refreshed (find : Nat → Option Extent) (byte : Nat) : Option Extent → Option Extent → Prop
  | none : Refreshed find byte none none
  | kept {m : Extent} (hahead : byte ≤ m.start) : Refreshed find byte (some m) (some m)
  | anew {m : Extent} {m' : Option Extent} (hbehind : m.start < byte)
      (hnext : Nexts text find byte m') : Refreshed find byte (some m) m'

/-- The matches at hand, pattern by pattern, once the text up to a byte offset is taken. -/
inductive Refreshes (byte : Nat) :
    List (Nat → Option Extent) → List (Option Extent) → List (Option Extent) → Prop
  | nil : Refreshes byte [] [] []
  | cons {find : Nat → Option Extent} {finds : List (Nat → Option Extent)} {m m' : Option Extent}
      {ms ms' : List (Option Extent)} (hfirst : Refreshed text find byte m m')
      (hrest : Refreshes byte finds ms ms') : Refreshes byte (find :: finds) (m :: ms) (m' :: ms')

/-- The tokens that are taken, given the matches at hand. -/
inductive Takes (finds : List (Nat → Option Extent)) : List (Option Extent) → List Token → Prop
  | done {ms : List (Option Extent)} (hbest : bestToken 0 ms = none) : Takes finds ms []
  | take {ms ms' : List (Option Extent)} {t : Token} {ts : List Token}
      (hbest : bestToken 0 ms = some t) (hrefresh : Refreshes text t.extent.stop finds ms ms')
      (hrest : Takes finds ms' ts) : Takes finds ms (t :: ts)

/-- The tokens from a byte offset on. -/
def Tokenizes (finds : List (Nat → Option Extent)) (byte : Nat) (ts : List Token) : Prop :=
  ∃ ms, List.Forall₂ (fun find m => Nexts text find byte m) finds ms ∧ Takes text finds ms ts

/-- The spans of tokens, by char offsets of the whole text. -/
def spans? (defs : List TokenDef) (base : Nat) : CharCounter → List Token → Option (List Span)
  | _, [] => some []
  | c, t :: ts => do
    let (start, c) ← c.charOffset? text base t.extent.start
    let (stop, c) ← c.charOffset? text base t.extent.stop
    let spans ← spans? defs base c ts
    return ⟨start, stop, (defs[t.pattern]?.map (·.style)).getD ""⟩ :: spans

end Encoded

end Highlighter
