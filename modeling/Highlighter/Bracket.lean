import Highlighter.Document

/-! # Brackets — the partner of the bracket before the cursor

    Only brackets of the class of the first count, so a `)` inside a string does not close
    a `(` in code.  The scan runs away from the first bracket and keeps the number of
    brackets still open. -/

namespace Highlighter

/-- Opening and closing chars of each pair. -/
def bracketPairs : List (Char × Char) := [('(', ')'), ('\x7b', '\x7d'), ('[', ']'), ('<', '>')]

/-- The partner of a bracket, and whether it lies ahead. -/
def partner? (c : Char) : Option (Char × Bool) :=
  bracketPairs.findSome? fun (opening, closing) =>
    if c = opening then some (closing, true)
    else if c = closing then some (opening, false)
    else none

variable {κ : Type} [DecidableEq κ]

/-- Scans chars with their offsets for the one that closes `bracket`, with `depth` brackets open
    besides it. -/
def scanPartner (classAt : Nat → κ) (bracket other : Char) (kind : κ) :
    (depth : Nat) → List (Nat × Char) → Option Nat
  | _, [] => none
  | depth, (o, c) :: rest =>
    if (c ≠ bracket ∧ c ≠ other) ∨ classAt o ≠ kind then
      scanPartner classAt bracket other kind depth rest
    else if c = bracket then scanPartner classAt bracket other kind (depth + 1) rest
    else
      match depth with
      | 0 => some o
      | depth + 1 => scanPartner classAt bracket other kind depth rest

/-- The chars of an extent with their offsets. -/
def charsOf (doc : Document) (e : Extent) : List (Nat × Char) :=
  (doc.slice e).toList.zipIdx e.start |>.map Prod.swap

/-- Offset of the bracket that matches the one before `pos`, among the `limit` chars next to it;
    without a limit, in the whole document. -/
def matchingBracket? (doc : Document) (pos : Nat) (limit : Option Nat) (classAt : Nat → κ) :
    Option Nat :=
  match pos with
  | 0 => none
  | origin + 1 => do
    let bracket ← doc.charAt? origin
    let (other, forward) ← partner? bracket
    let len := doc.length
    let chars :=
      if forward then charsOf doc ⟨pos, min len (pos + limit.getD len)⟩
      else (charsOf doc ⟨origin - limit.getD origin, origin⟩).reverse
    scanPartner classAt bracket other (classAt origin) 0 chars

end Highlighter
