import Highlighter.Chars.Set

/-! # Display width — terminal columns of a char

    Combining marks, invisible format chars, the joining letters of Korean syllables and
    consonants written before their cluster take no column; wide letters and most emoji
    take two; control chars and all others take one. -/

namespace Highlighter.Chars

/-- Chars that take no column of their own. -/
def zeroWidth : CharSet := .ofSteps
  ["300+6F 113+6 107+2C 1 1+1*2 1 3D A+A 1 2E+14 10 65+6 2+5 2+1 1+3 21 1 1E+1A 5B+A 3A+8 9 18+3",
   "1+8 1+2 1+4 2B+2 34+1 6+7 2A+38 37 1 4+7 4 3+6 A+1 1D 3A 1 2+3 8 9 A+1 1A 2+1 39 4+1*2 2+2 3",
   "1E+1 3 B+1 39 4+4 1+1 4 14+1 16+5 1 3A 1+1 1+3 8 7+2 A+1 1E 3B 1 C 9 28 3 37 1+2 5+2 1+3 7+1",
   "B+1 1D 3A 2+1 1 3+2 1+3 7+1 B+1 1C+1 39+1 1 2+3 8+1 8 A+1 1D 48 4 2+2 1 8 51 2+6 C+7 62 2+8",
   "B+6 49+1 1B 1 1 37+D 1+4 1+1 5+A 1+23 9 66+3 1+5 1+1 2+1 19+1 4+2 10+3 D 2+1 6 F C2+9F 15D+2",
   "3B2+2 1D+1 1E+1*2 40+1 1+6 8 2+A 9 2D+4 75+1 22 76+2 4+1 9 6+2 DB+1 2 3A 1+6 1 1 2+7 6+9 2",
   "30+1E 31+3 30+9 4+1 27+8 C+1 20+3 2+1 1+2 38 1+1 3 1+2 3A+7 2+1 98+2 1+C 1+6 4 6 3+1 C6+3F",
   "20B+4 1A+4 31+F 60+20 BFE+2 EE+1F 22A+5 69+1 C9 750A+3 1+9 20+1 50+1 110 3 4 19+1 5 97+1",
   "1A+11 8 4 26+7 19+A 2E+2 30 2+3 2+1 27 43+5 2+1*2 C 8 2F 33 1+2 2+1 5+1 1 2A+1 8 EE 2 4",
   "2BC2+16 4+30 2322 2E1+F 10+F CF 9E+2 4F+8 204 E2 95+4 686+2 1+1 5+3 28+2 4 A5+1 23D+3 183+1",
   "50+2 46+A 31+3 7B 36+E 29 2+1 A+2 31+3 2+1 7 3D+2 24+4 1+7 3E C+1 34+8 3+1 5+3 2 5F+2 2 1+1",
   "6 2 9D 3+7 15+1 39+1 1 1 16 E+6 3+4 C3+7 2+2 1 17 51 2+5 1 2 1+1*2 EB 2+3 6+1 1+1 1B+1 55+7",
   "2 1+1 6A 1 2+5 1 65+2 2+3 1+4 103+8 1+1 F5 A+1 1+1 1 1 90+3 2+1 4 20+9 28+5 1+4 8 9+5 2+2",
   "28+12 1+1 196+6 1+5 1 52+15 2+6 1+1*2 7A+5 3 1+1 1+8 48+1 3 1 15B+1 B+2 33+4 5 1 14FD 6+E",
   "369A+4 3B+6 418 3F+3 51 4CB8+1 1+3 125C+2D 2+16 21E 1+2 4+14 2+6 1E+3 94+2 7BB+36 4+31 8 E",
   "16+4 1+E 550+6 1+10 2+6 1+1 1+4 64 A0+6 177 3D+3 1FC+3 3E0+6 6D+6 C16B5+FFF"]

/-- Chars that take two columns. -/
def doubleWidth : CharSet := .ofSteps
  ["1100+5F 644 B75+1 D+1 BE+3 3 2 209+1 15+1 32+B 2B 13 D 8+1 11+1 5+1 8 5 15 7+1 1 4 2 7 4+1",
   "1C 23 1 4+2 1 3D+2 18 E 35B+1 33 4 32A+19 1+58 C+D5 1A+39 6+E 2+55 4+64 5+2A 1+32 1+29 1+53",
   "B+2F 1+27 8+1B6F 40+568C 3+36 499+1C 283+2BA3 215C+1FF 310+9 16+22 1+12 1+3 95+5F 7F+6",
   "6FF9+3 C+1 E+17F7 8+4D5 2A+8 22E7+3 1+6 1+1 1+122 F 1D+2 2 E+3 8+18B 3D08 CA BE 2+9 65+2",
   "D+2B 4+8 7+1 E+5 9A+20 C+8 1+45 1+15 C+2A 4+4 C+10 3 3+46 1 1+BA 2+3E D+3 1+17 12 1A+1 D",
   "56+54 30+45 6 3+2 2+2 4+3 B+1 7+8 E3+B 4 11B+2E 1+9 1+B8 70+C 3+8 7+2D 1+6 8+D 4+8 7+8",
   "507+FFFD 2+FFFD"]

/-- Columns that a char takes.  One sign, a ligature of four letters, takes three. -/
def displayWidth (c : Char) : Nat :=
  if c.toNat < 0xA0 then 1
  else if c.toNat = 0x17D8 then 3
  else if zeroWidth.contains c then 0
  else if doubleWidth.contains c then 2
  else 1

end Highlighter.Chars
