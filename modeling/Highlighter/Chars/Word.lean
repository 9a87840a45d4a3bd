import Highlighter.Chars.Property

/-! # Words — word chars, digits and blanks

    A word char is a letter, a mark, a decimal digit, a connector or a joiner; digits are
    the decimal ones of every script; blanks are the white space of every script.  Each
    class settles the ASCII chars first and looks the others up. -/

namespace Highlighter.Chars

open Category Property

/-- Letters, marks, decimal digits, connectors and joiners. -/
def wordChars : CharSet :=
  .unions [alphabetic, mark, decimalNumber, connectorPunctuation, joinControl]

/-- White space past ASCII. -/
def blankRanges : List (Nat × Nat) :=
  [(0x85, 0x85), (0xA0, 0xA0), (0x1680, 0x1680), (0x2000, 0x200A), (0x2028, 0x2029),
   (0x202F, 0x202F), (0x205F, 0x205F), (0x3000, 0x3000)]

/-- An ASCII letter, digit or underscore. -/
def isAsciiWord (c : Char) : Bool := c.isAlphanum || c == '_'

def isWord (c : Char) : Bool := if c.toNat < 128 then isAsciiWord c else wordChars.contains c

/-- Tab, line feed, vertical tab, form feed, carriage return or space. -/
def isAsciiBlank (c : Char) : Bool := c == ' ' || (9 ≤ c.toNat && c.toNat ≤ 13)

def isBlank (c : Char) : Bool :=
  if c.toNat < 128 then isAsciiBlank c else CharSet.inRanges blankRanges c.toNat

/-! ## Names -/

/-- Letters that are newer than the other tables. -/
def newLetters : CharSet := .ofSteps
  ["88F 3CC 7F 9AF1+1 2 1 1C 614E+19 56B+2 32+1 C64+7 248+2B 50C4+18 2+18 11E+4 1801+7 509+15",
   "61+72 58CD+1E 1+15 8+1 D03A+5 1762+B 5502+10C9"]

/-- Numbers that are newer than the other tables. -/
def newNumbers : CharSet := .ofSteps ["11DE0+9 520A+2"]

/-- What a name may begin with: an underscore or a letter of any script. -/
def startsName (c : Char) : Bool :=
  c == '_' || alphabetic.contains c || newLetters.contains c

/-- What may stand in a name further on: dots, brackets and numbers of any script as well. -/
def continuesName (c : Char) : Bool :=
  startsName c || c == '.' || c == '[' || c == ']' || number.contains c || newNumbers.contains c

end Highlighter.Chars
