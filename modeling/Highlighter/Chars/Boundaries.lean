import Highlighter.Chars.Property

/-! # Boundary classes

    What chars are to the boundaries of grapheme clusters, words and sentences.  Each char
    has one class for each kind of boundary; most classes follow from general categories
    and binary properties.  Chars of no class below are plain to boundaries. -/

namespace Highlighter.Chars.Boundaries

open Category Property

def carriageReturn : CharSet := .single '\r'

def lineFeed : CharSet := .single '\n'

def joiner : CharSet := .ofCodes [0x200D]

/-- Marks that stand in a line of their own and joiners that attach to what is before them. -/
def attached : CharSet := graphemeExtend.union spacingMark

/-! ## Grapheme clusters -/

/-- Letters that begin a Korean syllable. -/
def syllableLead : CharSet := .ofSteps ["1100+5F 9800+1C"]

/-- Vowels that go on with a syllable. -/
def syllableVowel : CharSet := .ofSteps ["1160+47 C608+16 959C 3+3"]

/-- Letters that end a Korean syllable. -/
def syllableTail : CharSet := .ofSteps ["11A8+57 C5CB+30"]

/-- Whole Korean syllables that end with their vowel. -/
def openSyllable : CharSet := .ofSteps ["AC00 1B*18E"]

/-- Whole Korean syllables that end with a consonant. -/
def closedSyllable : CharSet := (CharSet.range '\uAC00' '\uD7A3').diff openSyllable

/-- Consonants written before their cluster. -/
def prefixedConsonant : CharSet := .ofSteps ["D4E 10473+1 20D 56D 1 F8 49+5 2BC 1BB"]

/-- Spacing marks that begin a cluster of their own. -/
def looseSpacingMark : CharSet := .ofSteps
  ["102B+1 B 29+2 2+6 15 3+5 2 A+2 9C4 1+1 9016 1 6CA2+1"]

/-- The grapheme cluster classes by short and long name. -/
def grapheme : List (List String × CharSet) :=
  [(["cr"], carriageReturn),
   (["lf"], lineFeed),
   (["cn", "control"],
     (CharSet.unions [lineSeparator, paragraphSeparator, control, format,
       unassigned.inter defaultIgnorable]).diff
       (.unions [carriageReturn, lineFeed, joiner, prependedConcatenationMark, graphemeExtend])),
   (["ex", "extend"], graphemeExtend.union emojiModifier),
   (["zwj"], joiner),
   (["ri", "regionalindicator"], regionalIndicator),
   (["pp", "prepend"], prependedConcatenationMark.union prefixedConsonant),
   (["sm", "spacingmark"],
     (spacingMark.diff (graphemeExtend.union looseSpacingMark)).union (.ofCodes [0xE33, 0xEB3])),
   (["l"], syllableLead),
   (["v"], syllableVowel),
   (["t"], syllableTail),
   (["lv"], openSyllable),
   (["lvt"], closedSyllable)]

/-! ## Words -/

def katakana : CharSet := .ofSteps
  ["3031+4 65+1 3+5A 1+3 F0+F D0+2E 1+57 CC0E+37 B052+3 1+6 1+1 1 11F+2 32 E+3"]

def hebrewLetter : CharSet := .ofSteps ["5D0+1A 4+3 F52A 1+9 1+C 1+4 1 1+1*2 1+9"]

def hiragana : CharSet := .ofSteps ["3041+55 6+2 17F61+11E 12 1D+2 40AD"]

/-- Letters of scripts that do not mark words, so that words need a dictionary. -/
def contextLetter : CharSet := .ofSteps
  ["E01+2F 1+1 C+6 3A+1 1 1+4 1+17 1 1+9 1+1 9 2+4 1 15+3 120+2A 14 10+5 4+3 3 3+1 7+2 4+C C",
   "6F1+33 23 4 173+1D 2+4 B+2B 4+19 56+34 52 8F38+4 1+9 A+4 61+16 3 3+31 1 3+1 2+4 2 1 18+2",
   "6C22+1A 25+6"]

/-- Signs that count as letters of words. -/
def wordSign : CharSet := .ofSteps ["2C2+3 C+5 6+1 5+6 1 1+10 25A+2 1 2B 68 A114+E 9+1 67+1 3D0"]

/-- The word classes by short and long name. -/
def word : List (List String × CharSet) :=
  let extend := attached.union emojiModifier
  let numeric := decimalNumber.union (.ofCodes [0x66B])
  [(["cr"], carriageReturn),
   (["lf"], lineFeed),
   (["nl", "newline"], .ofSteps ["B+1 78 1FA2+1"]),
   (["extend"], extend),
   (["zwj"], joiner),
   (["fo", "format"], format.diff (graphemeExtend.union (.ofCodes [0x200B, 0x200D]))),
   (["ka", "katakana"], katakana),
   (["hl", "hebrewletter"], hebrewLetter),
   (["le", "aletter"],
     (alphabetic.diff (.unions [ideographic, katakana, hebrewLetter, hiragana, extend, numeric,
       contextLetter])).union wordSign),
   (["sq", "singlequote"], .single '\''),
   (["dq", "doublequote"], .single '"'),
   (["mb", "midnumlet"], .ofSteps ["2E 1FE9+1 A DE2D B4 6"]),
   (["ml", "midletter"], .ofSteps ["3A 7C 2CF 1D7 94 1A32 DDEB 41 C4"]),
   (["mn", "midnum"], .ofSteps ["2C E 342 20A 82+1 5E 18B 184B DDCB 3 3B 3 B7 E"]),
   (["nu", "numeric"], numeric),
   (["ex", "extendnumlet"], .ofSteps ["5F 1FCF F+1 13 DDDE+1 18+2 EF"]),
   (["ri", "regionalindicator"], regionalIndicator),
   (["wsegspace"], .ofSteps ["20 165F 97F+6 1+2 54 FA0"])]

/-! ## Sentences -/

/-- The sentence classes by short and long name. -/
def sentence : List (List String × CharSet) :=
  let separators := CharSet.ofSteps ["85 1FA2+1"]
  let lower := lowercaseChars.diff (graphemeExtend.union (.ofSteps ["10D0+2A 2+2"]))
  let upper := (uppercaseChars.union titlecaseLetter).diff (.ofSteps ["1C90+2A 2+2"])
  let extend := attached.union joiner
  let periods := CharSet.ofSteps ["2E 1FF5 DE2D BB"]
  [(["cr"], carriageReturn),
   (["lf"], lineFeed),
   (["ex", "extend"], extend),
   (["se", "sep"], separators),
   (["fo", "format"], format.diff extend),
   (["sp"], whiteSpace.diff (.unions [carriageReturn, lineFeed, separators])),
   (["lo", "lower"], lower),
   (["up", "upper"], upper),
   (["le", "oletter"],
     (alphabetic.union (.ofCodes [0x5F3])).diff (.unions [lower, upper, extend])),
   (["nu", "numeric"], decimalNumber.union (.ofCodes [0x66B, 0x66C])),
   (["at", "aterm"], periods),
   (["sc", "scontinue"],
     .ofSteps
       ["2C+1 C+1 342 1DE AE+1 1EA 1009 5 80A+1 FEC CE0E+1 1+1 1C+1 1D+1 2+1 2 A A8+1 C+1 48"]),
   (["st", "sterm"], sentenceTerminal.diff periods),
   (["cl", "close"],
     .unions [openPunctuation, closePunctuation, initialPunctuation, finalPunctuation,
       .ofSteps ["22 4 2733+5 69F+1 4+2 2 1C86A+2"]])]

end Highlighter.Chars.Boundaries
