import Highlighter.Chars.Set

/-! # Scripts

    Every assigned char belongs to one script.  A char that is written in several is shared:
    it extends all of them, and then its own script only if that is one of them. -/

namespace Highlighter.Chars

/-- A script by its short and long names, in lower case and without blanks. -/
structure Script where
  names : List String
  chars : CharSet

namespace Script

def all : List Script :=
  [⟨["adlm", "adlam"], .ofSteps ["1E900+4B 4+9 4+1"]⟩,
   ⟨["ahom"], .ofSteps ["11700+1A 2+E 4+16"]⟩,
   ⟨["hluw", "anatolianhieroglyphs"], .ofSteps ["14400+246"]⟩,
   ⟨["arab", "arabic"], .ofSteps
     ["600+4 1+5 1+D 1+2 1+1F 1+9 B+19 1+6B 1+21 50+2F F0+1E 1+1 5+4A 1+1C F250+72 10+16A 2+4F",
      "2+35 7 20+F 70+4 1+86 F63+1E 43+2 37+3 DF00+3 1+1A 1+1 1 2 1+9 1+3 1 1 6 4 1 1 1+2 1+1 1",
      "2 1*4 1+1 1 2+3 1+6 1+3*2 1 1+9 1+10 5+2 1+4 1+10 34+1"]⟩,
   ⟨["armn", "armenian"], .ofSteps ["531+25 2+31 2+2 F583+4"]⟩,
   ⟨["avst", "avestan"], .ofSteps ["10B00+35 3+6"]⟩,
   ⟨["bali", "balinese"], .ofSteps ["1B00+4C 1+31"]⟩,
   ⟨["bamu", "bamum"], .ofSteps ["A6A0+57 C108+238"]⟩,
   ⟨["bass", "bassavah"], .ofSteps ["16AD0+1D 2+5"]⟩,
   ⟨["batk", "batak"], .ofSteps ["1BC0+33 8+3"]⟩,
   ⟨["beng", "bengali"], .ofSteps ["980+3 1+7 2+1 2+15 1+6 1 3+3 2+8 2+1 2+3 8 4+1 1+4 2+18"]⟩,
   ⟨["bhks", "bhaiksuki"], .ofSteps ["11C00+8 1+2C 1+D A+1C"]⟩,
   ⟨["bopo", "bopomofo"], .ofSteps ["2EA+1 2E19+2A 70+1F"]⟩,
   ⟨["brah", "brahmi"], .ofSteps ["11000+4D 4+23 9"]⟩,
   ⟨["brai", "braille"], .ofSteps ["2800+FF"]⟩,
   ⟨["bugi", "buginese"], .ofSteps ["1A00+1B 2+1"]⟩,
   ⟨["buhd", "buhid"], .ofSteps ["1740+13"]⟩,
   ⟨["cans", "canadianaboriginal"], .ofSteps ["1400+27F 230+45 101BA+F"]⟩,
   ⟨["cari", "carian"], .ofSteps ["102A0+30"]⟩,
   ⟨["aghb", "caucasianalbanian"], .ofSteps ["10530+33 B"]⟩,
   ⟨["cakm", "chakma"], .ofSteps ["11100+34 1+11"]⟩,
   ⟨["cham"], .ofSteps ["AA00+36 9+D 2+9 2+3"]⟩,
   ⟨["cher", "cherokee"], .ofSteps ["13A0+55 2+5 9772+4F"]⟩,
   ⟨["chrs", "chorasmian"], .ofSteps ["10FB0+1B"]⟩,
   ⟨["zyyy", "common"], .ofSteps
     ["0+40 1A+5 1A+2E 1+E 1+4 17 1F 1C1+26 5+4 2+13 74 9 6 1 27D 6 E 3 20 9C 204 81+1 4D9 195+3",
      "122 5EF+2 47+1 CB+1 1 4CD D 7+3 1+5 1+2 2 305+B 2+56 1+A 3+A 1+E 11+20 3F+25 1+2 2+5 1+1A",
      "1+10 29+2 4+299 16+A 15+39F 100+273 2+1F 1+68 200+5D 192+14 1 1+18 F+7 4+3 5B+1 3 5A+1",
      "93+F 20+25 9 30+3F 1F+50 2F 58+A7 19C0+3F 5900+21 66+2 A5+9 F4 A0 18B E+1 51D2+1 D0+9",
      "16+22 1+12 1+3 93 1+1F 1A+5 1A+A A 2D+1 40+6 1+6 A+4 102+2 4+2C 3+8 50+C 33+2C E4+1A",
      "B9A4+3 F5C+F9 6+1B3 9C+73 3C+F5 A+26 2+3D 3+10 8+1 7+1D 4+3C D5+13 C+13 C+56 9+18 87+54",
      "1+46 1+1 2 2+1 2+3 1+B 1 1+6 1+40 1+3 2+7 1+6 1+1B 1+3 1+4 1 3+6 1+153 2+123 2+31 1471+43",
      "4C+3C 2C2+2B 4+63 C+E 2+E 1+E 1+24 A+AD 38+19 1+1 D+2B 4+8 7+1 E+5 9A+3D7 4+10 3+C 3+76",
      "4+5E 6+B 4 F+B 4+37 8+9 6+27 8+1D 2+B 4+1 3E+153 C+D 2+C 3+9 5+37 7+E 2+A 6+8 7+92 1+65",
      "C0407 1E+5F"]⟩,
   ⟨["copt", "coptic", "qaac"], .ofSteps ["3E2+D 2890+73 5+6"]⟩,
   ⟨["xsux", "cuneiform"], .ofSteps ["12000+399 66+6E 1+4 B+C3"]⟩,
   ⟨["cprt", "cypriot"], .ofSteps ["10800+5 2 1+2B 1+1 3 2"]⟩,
   ⟨["cpmn", "cyprominoan"], .ofSteps ["12F90+62"]⟩,
   ⟨["cyrl", "cyrillic"], .ofSteps
     ["400+84 2+A8 1750+A A0 4C 1067+1F 7840+5F 578E+1 E200+3D 21"]⟩,
   ⟨["dsrt", "deseret"], .ofSteps ["10400+4F"]⟩,
   ⟨["deva", "devanagari"], .ofSteps ["900+50 4+E 2+19 9F60+1F 7200+9"]⟩,
   ⟨["diak", "divesakuru"], .ofSteps ["11900+6 2 2+7 1+1 1+1D 1+1 2+B 9+9"]⟩,
   ⟨["dogr", "dogra"], .ofSteps ["11800+3B"]⟩,
   ⟨["dupl", "duployan"], .ofSteps ["1BC00+6A 5+C 3+8 7+9 2+3"]⟩,
   ⟨["egyp", "egyptianhieroglyphs"], .ofSteps ["13000+455 A+F9A"]⟩,
   ⟨["elba", "elbasan"], .ofSteps ["10500+27"]⟩,
   ⟨["elym", "elymaic"], .ofSteps ["10FE0+16"]⟩,
   ⟨["ethi", "ethiopic"], .ofSteps
     ["1200+48 1+3 2+6 1 1+3 2+28 1+3 2+20 1+3 2+6 1 1+3 2+E 1+38 1+3 2+42 2+1F 3+19 19E6+16 9+6",
      "1+6*7 7D22+5 2+5*2 9+6 1+6 13CB1+6 1+3 1+1 1+E"]⟩,
   ⟨["gara", "garay"], .ofSteps ["10D40+25 3+1C 8+1"]⟩,
   ⟨["geor", "georgian"], .ofSteps ["10A0+25 1 5 2+2A 1+3 B90+2A 2+2 1040+25 1 5"]⟩,
   ⟨["glag", "glagolitic"], .ofSteps ["2C00+5F 1B3A0+6 1+10 2+6 1+1 1+4"]⟩,
   ⟨["goth", "gothic"], .ofSteps ["10330+1A"]⟩,
   ⟨["gran", "grantha"], .ofSteps
     ["11300+3 1+7 2+1 2+15 1+6 1+1 1+4 2+8 2+1 2+2 2 6 5+6 2+6 3+4"]⟩,
   ⟨["grek", "greek"], .ofSteps
     ["370+3 1+2 2+3 1 4 1 1+2 1 1+13 1+3E E+F 1926+4 32+4 4+4 54 140+15 2+5 2+25 2+5 2+7 1*3",
      "1+1E 2+34 1+E 1+D 2+5 1+12 2+2 1+8 127 8A3E 55DA+4E 11 D05F+45"]⟩,
   ⟨["gujr", "gujarati"], .ofSteps ["A81+2 1+8 1+2 1+15 1+6 1+1 1+4 2+9 1+2*2 2 F+3 2+B 7+6"]⟩,
   ⟨["gong", "gunjalagondi"], .ofSteps ["11D60+5 1+1 1+24 1+1 1+5 7+9"]⟩,
   ⟨["guru", "gurmukhi"], .ofSteps ["A01+2 1+5 4+1 2+15 1+6 1+1*3 2 1+4 4+1 2+2 3 7+3 1 7+10"]⟩,
   ⟨["gukh", "gurungkhema"], .ofSteps ["16100+39"]⟩,
   ⟨["hani", "han"], .ofSteps
     ["2E80+19 1+58 C+D5 2F 1 19+8 E+3 3C4+19BF 40+51FF 5900+16D 2+69 7508+1 C+1 900E+A6DF",
      "20+1039 6+DD 2+1681 E+1D30 F+26D 9A2+21D 5E2+134A 5+105F"]⟩,
   ⟨["hang", "hangul"], .ofSteps
     ["1100+FF 1E2E+1 101+5D 71+1E 41+1E 76E1+1C 283+2BA3 C+16 4+30 27A4+1E 3+5 2+5*2 2+2"]⟩,
   ⟨["rohg", "hanifirohingya"], .ofSteps ["10D00+27 8+9"]⟩,
   ⟨["hano", "hanunoo"], .ofSteps ["1720+14"]⟩,
   ⟨["hatr", "hatran"], .ofSteps ["108E0+12 1+1 5+4"]⟩,
   ⟨["hebr", "hebrew"], .ofSteps ["591+36 8+1A 4+5 F528+19 1+4 1 1+1*2 1+9"]⟩,
   ⟨["hira", "hiragana"], .ofSteps ["3041+55 6+2 17F61+11E 12 1D+2 40AD"]⟩,
   ⟨["armi", "imperialaramaic"], .ofSteps ["10840+15 1+8"]⟩,
   ⟨["zinh", "inherited", "qaai"], .ofSteps
     ["300+6F 115+1 1C4+A 1A 2E0+3 115B+1E 201+2 1+C 1+6 4 6 3+1 C6+3F 20C+1 C2+20 F39+3 6B+1",
      "CD65+F 10+D 3CF E2 105A BBC4+2D 2+16 220+2 11+7 2+6 1E+3 C2F52+EF"]⟩,
   ⟨["phli", "inscriptionalpahlavi"], .ofSteps ["10B60+12 5+7"]⟩,
   ⟨["prti", "inscriptionalparthian"], .ofSteps ["10B40+15 2+7"]⟩,
   ⟨["java", "javanese"], .ofSteps ["A980+4D 2+9 4+1"]⟩,
   ⟨["kthi", "kaithi"], .ofSteps ["11080+42 A"]⟩,
   ⟨["knda", "kannada"], .ofSteps ["C80+C 1+2 1+16 1+9 1+4 2+8 1+2 1+3 7+1 6+1 1+3 2+9 1+2"]⟩,
   ⟨["kana", "katakana"], .ofSteps
     ["30A1+59 2+2 F0+F D0+2E 1+57 CC0E+9 1+2C B052+3 1+6 1+1 1 11F+2 32 E+3"]⟩,
   ⟨["kawi"], .ofSteps ["11F00+10 1+28 3+1C"]⟩,
   ⟨["kali", "kayahli"], .ofSteps ["A900+2D 1"]⟩,
   ⟨["khar", "kharoshthi"], .ofSteps ["10A00+3 1+1 5+7 1+2 1+1C 2+2 4+9 7+8"]⟩,
   ⟨["kits", "khitansmallscript"], .ofSteps ["16FE4 1B1B+1D5 29"]⟩,
   ⟨["khmr", "khmer"], .ofSteps ["1780+5D 2+9 6+9 1E6+1F"]⟩,
   ⟨["khoj", "khojki"], .ofSteps ["11200+11 1+2E"]⟩,
   ⟨["sind", "khudawadi"], .ofSteps ["112B0+3A 5+9"]⟩,
   ⟨["krai", "kiratrai"], .ofSteps ["16D40+39"]⟩,
   ⟨["laoo", "lao"], .ofSteps ["E81+1 1 1+4 1+17 1 1+16 2+4 1 1+6 1+9 2+3"]⟩,
   ⟨["latn", "latin"], .ofSteps
     ["41+19 6+19 2F F 5+16 1+1E 1+1C0 27+4 1A1B+25 6+30 5+3 5+C 1+45 41+FF 171 D 10+C 8D+1 6 1B",
      "11+28 AD7+1F 7AA2+65 3+42 2+1 1 1+7 15+D 330+2A 1+8 1+3 4F96+6 41A+19 6+19 825+5 1+29 1+8",
      "D745+1E 6+5"]⟩,
   ⟨["lepc", "lepcha"], .ofSteps ["1C00+37 3+E 3+2"]⟩,
   ⟨["limb", "limbu"], .ofSteps ["1900+1E 1+B 4+B 4 3+B"]⟩,
   ⟨["lina", "lineara"], .ofSteps ["10600+136 9+15 A+7"]⟩,
   ⟨["linb", "linearb"], .ofSteps ["10000+B 1+19 1+12 1+1 1+E 2+D 22+7A"]⟩,
   ⟨["lisu"], .ofSteps ["A4D0+2F 7AB0"]⟩,
   ⟨["lyci", "lycian"], .ofSteps ["10280+1C"]⟩,
   ⟨["lydi", "lydian"], .ofSteps ["10920+19 5"]⟩,
   ⟨["mahj", "mahajani"], .ofSteps ["11150+26"]⟩,
   ⟨["maka", "makasar"], .ofSteps ["11EE0+18"]⟩,
   ⟨["mlym", "malayalam"], .ofSteps ["D00+C 1+2 1+32 1+2 1+5 4+F 2+19"]⟩,
   ⟨["mand", "mandaic"], .ofSteps ["840+1B 2"]⟩,
   ⟨["mani", "manichaean"], .ofSteps ["10AC0+26 4+B"]⟩,
   ⟨["marc", "marchen"], .ofSteps ["11C70+1F 2+15 1+D"]⟩,
   ⟨["gonm", "masaramgondi"], .ofSteps ["11D00+6 1+1 1+2B 3 1+1 1+8 8+9"]⟩,
   ⟨["medf", "medefaidrin"], .ofSteps ["16E40+5A"]⟩,
   ⟨["mtei", "meeteimayek"], .ofSteps ["AAE0+16 C9+2D 2+9"]⟩,
   ⟨["mend", "mendekikakui"], .ofSteps ["1E800+C4 2+F"]⟩,
   ⟨["merc", "meroiticcursive"], .ofSteps ["109A0+17 4+13 2+2D"]⟩,
   ⟨["mero", "meroitichieroglyphs"], .ofSteps ["10980+1F"]⟩,
   ⟨["plrd", "miao"], .ofSteps ["16F00+4A 4+38 7+10"]⟩,
   ⟨["modi"], .ofSteps ["11600+44 B+9"]⟩,
   ⟨["mong", "mongolian"], .ofSteps ["1800+1 2 1+13 6+58 7+2A FDB5+C"]⟩,
   ⟨["mroo", "mro"], .ofSteps ["16A40+1E 1+9 4+1"]⟩,
   ⟨["mult", "multani"], .ofSteps ["11280+6 1 1+3 1+E 1+A"]⟩,
   ⟨["mymr", "myanmar"], .ofSteps ["1000+9F 9940+1E 61+1F 6C50+13"]⟩,
   ⟨["nbat", "nabataean"], .ofSteps ["10880+1E 8+8"]⟩,
   ⟨["nagm", "nagmundari"], .ofSteps ["1E4D0+29"]⟩,
   ⟨["nand", "nandinagari"], .ofSteps ["119A0+7 2+2D 2+A"]⟩,
   ⟨["talu", "newtailue"], .ofSteps ["1980+2B 4+19 6+A 3+1"]⟩,
   ⟨["newa"], .ofSteps ["11400+5B 1+4"]⟩,
   ⟨["nkoo", "nko"], .ofSteps ["7C0+3A 2+2"]⟩,
   ⟨["nshu", "nushu"], .ofSteps ["16FE1 418E+18B"]⟩,
   ⟨["hmnp", "nyiakengpuachuehmong"], .ofSteps ["1E100+2C 3+D 2+9 4+1"]⟩,
   ⟨["ogam", "ogham"], .ofSteps ["1680+1C"]⟩,
   ⟨["olck", "olchiki"], .ofSteps ["1C50+2F"]⟩,
   ⟨["onao", "olonal"], .ofSteps ["1E5D0+2A 4"]⟩,
   ⟨["hung", "oldhungarian"], .ofSteps ["10C80+32 D+32 7+5"]⟩,
   ⟨["ital", "olditalic"], .ofSteps ["10300+23 9+2"]⟩,
   ⟨["narb", "oldnortharabian"], .ofSteps ["10A80+1F"]⟩,
   ⟨["perm", "oldpermic"], .ofSteps ["10350+2A"]⟩,
   ⟨["xpeo", "oldpersian"], .ofSteps ["103A0+23 4+D"]⟩,
   ⟨["sogo", "oldsogdian"], .ofSteps ["10F00+27"]⟩,
   ⟨["sarb", "oldsoutharabian"], .ofSteps ["10A60+1F"]⟩,
   ⟨["orkh", "oldturkic"], .ofSteps ["10C00+48"]⟩,
   ⟨["ougr", "olduyghur"], .ofSteps ["10F70+19"]⟩,
   ⟨["orya", "oriya"], .ofSteps ["B01+2 1+7 2+1 2+15 1+6 1+1 1+4 2+8 2+1 2+2 7+2 4+1 1+4 2+11"]⟩,
   ⟨["osge", "osage"], .ofSteps ["104B0+23 4+23"]⟩,
   ⟨["osma", "osmanya"], .ofSteps ["10480+1D 2+9"]⟩,
   ⟨["hmng", "pahawhhmong"], .ofSteps ["16B00+45 A+9 1+6 1+14 5+12"]⟩,
   ⟨["palm", "palmyrene"], .ofSteps ["10860+1F"]⟩,
   ⟨["pauc", "paucinhau"], .ofSteps ["11AC0+38"]⟩,
   ⟨["phag", "phagspa"], .ofSteps ["A840+37"]⟩,
   ⟨["phnx", "phoenician"], .ofSteps ["10900+1B 3"]⟩,
   ⟨["phlp", "psalterpahlavi"], .ofSteps ["10B80+11 7+3 C+6"]⟩,
   ⟨["rjng", "rejang"], .ofSteps ["A930+23 B"]⟩,
   ⟨["runr", "runic"], .ofSteps ["16A0+4A 3+A"]⟩,
   ⟨["samr", "samaritan"], .ofSteps ["800+2D 2+E"]⟩,
   ⟨["saur", "saurashtra"], .ofSteps ["A880+45 8+B"]⟩,
   ⟨["shrd", "sharada"], .ofSteps ["11180+5F"]⟩,
   ⟨["shaw", "shavian"], .ofSteps ["10450+2F"]⟩,
   ⟨["sidd", "siddham"], .ofSteps ["11580+35 2+25"]⟩,
   ⟨["sgnw", "signwriting"], .ofSteps ["1D800+28B F+4 1+E"]⟩,
   ⟨["sinh", "sinhala"], .ofSteps ["D81+2 1+11 3+17 1+8 1 2+6 3 4+5 1 1+7 6+9 2+2 103EC+13"]⟩,
   ⟨["sogd", "sogdian"], .ofSteps ["10F30+29"]⟩,
   ⟨["sora", "sorasompeng"], .ofSteps ["110D0+18 7+9"]⟩,
   ⟨["soyo", "soyombo"], .ofSteps ["11A50+52"]⟩,
   ⟨["sund", "sundanese"], .ofSteps ["1B80+3F 100+7"]⟩,
   ⟨["sunu", "sunuwar"], .ofSteps ["11BC0+21 E+9"]⟩,
   ⟨["sylo", "sylotinagri"], .ofSteps ["A800+2C"]⟩,
   ⟨["syrc", "syriac"], .ofSteps ["700+D 1+3B 2+2 110+A"]⟩,
   ⟨["tglg", "tagalog"], .ofSteps ["1700+15 9"]⟩,
   ⟨["tagb", "tagbanwa"], .ofSteps ["1760+C 1+2 1+1"]⟩,
   ⟨["tale", "taile"], .ofSteps ["1950+1D 2+4"]⟩,
   ⟨["lana", "taitham"], .ofSteps ["1A20+3E 1+1C 2+A 6+9 6+D"]⟩,
   ⟨["tavt", "taiviet"], .ofSteps ["AA80+42 18+4"]⟩,
   ⟨["takr", "takri"], .ofSteps ["11680+39 6+9"]⟩,
   ⟨["taml", "tamil"], .ofSteps
     ["B82+1 1+5 3+2 1+3 3+1 1 1+1 3+1 3+2 3+B 4+4 3+2 1+3 2 6 E+14 113C5+31 D"]⟩,
   ⟨["tnsa", "tangsa"], .ofSteps ["16A70+4E 1+9"]⟩,
   ⟨["tang", "tangut"], .ofSteps ["16FE0 1F+17F7 8+2FF 200+8"]⟩,
   ⟨["telu", "telugu"], .ofSteps ["C00+C 1+2 1+16 1+F 2+8 1+2 1+3 7+1 1+2 2 2+3 2+9 7+8"]⟩,
   ⟨["thaa", "thaana"], .ofSteps ["780+31"]⟩,
   ⟨["thai"], .ofSteps ["E01+39 5+1B"]⟩,
   ⟨["tibt", "tibetan"], .ofSteps ["F00+47 1+23 4+26 1+23 1+E 1+6 4+1"]⟩,
   ⟨["tfng", "tifinagh"], .ofSteps ["2D30+37 7+1 E"]⟩,
   ⟨["tirh", "tirhuta"], .ofSteps ["11480+47 8+9"]⟩,
   ⟨["todr", "todhri"], .ofSteps ["105C0+33"]⟩,
   ⟨["toto"], .ofSteps ["1E290+1E"]⟩,
   ⟨["tutg", "tulutigalari"], .ofSteps ["11380+9 1 2 1+25 1+9 1 2 1+3 1+9 1+1 8+1"]⟩,
   ⟨["ugar", "ugaritic"], .ofSteps ["10380+1D 1"]⟩,
   ⟨["vaii", "vai"], .ofSteps ["A500+12B"]⟩,
   ⟨["vith", "vithkuqi"], .ofSteps ["10570+A 1+E 1+6 1+1 1+A 1+E 1+6 1+1"]⟩,
   ⟨["wcho", "wancho"], .ofSteps ["1E2C0+39 5"]⟩,
   ⟨["wara", "warangciti"], .ofSteps ["118A0+52 C"]⟩,
   ⟨["yezi", "yezidi"], .ofSteps ["10E80+29 1+2 2+1"]⟩,
   ⟨["yiii", "yi"], .ofSteps ["A000+48C 3+36"]⟩,
   ⟨["zanb", "zanabazarsquare"], .ofSteps ["11A00+47"]⟩]

/-- Chars that several scripts share, by the short names of these. -/
def shared : List (List String × CharSet) :=
  [(["avst", "cari", "copt", "dupl", "elba", "geor", "glag", "gong", "goth", "grek", "hani",
     "latn", "lydi", "mahj", "perm", "shaw"],
    .ofSteps ["B7"]),
   (["beng", "cyrl", "deva", "latn", "lisu", "thai", "toto"], .ofSteps ["2BC"]),
   (["bopo", "latn"], .ofSteps ["2C7 1+2 D"]),
   (["latn", "lisu"], .ofSteps ["2CD"]),
   (["latn", "thai"], .ofSteps ["2D7"]),
   (["cher", "copt", "cyrl", "grek", "latn", "perm", "sunu", "tale"], .ofSteps ["300"]),
   (["cher", "cyrl", "grek", "latn", "osge", "sunu", "tale", "todr"], .ofSteps ["301"]),
   (["cher", "cyrl", "latn", "tfng"], .ofSteps ["302"]),
   (["glag", "latn", "sunu", "syrc", "thai"], .ofSteps ["303"]),
   (["aghb", "cher", "copt", "cyrl", "goth", "grek", "latn", "osge", "syrc", "tfng", "todr"],
    .ofSteps ["304"]),
   (["copt", "elba", "glag", "goth", "kana", "latn"], .ofSteps ["305"]),
   (["cyrl", "grek", "latn", "perm", "tfng"], .ofSteps ["306"]),
   (["copt", "dupl", "hebr", "latn", "perm", "syrc", "tale", "tfng", "todr"], .ofSteps ["307"]),
   (["armn", "cyrl", "dupl", "goth", "grek", "hebr", "latn", "perm", "syrc", "tale", "tfng"],
    .ofSteps ["308"]),
   (["latn", "tfng"], .ofSteps ["309"]),
   (["dupl", "latn", "syrc"], .ofSteps ["30A"]),
   (["cher", "cyrl", "latn", "osge"], .ofSteps ["30B"]),
   (["cher", "latn", "tale"], .ofSteps ["30C"]),
   (["latn", "sunu"], .ofSteps ["30D 2"]),
   (["ethi", "latn"], .ofSteps ["30E"]),
   (["cyrl", "latn", "todr"], .ofSteps ["311"]),
   (["grek", "latn", "perm", "todr"], .ofSteps ["313"]),
   (["cher", "dupl", "kana", "latn", "syrc", "tfng"], .ofSteps ["323"]),
   (["cher", "dupl", "latn", "syrc"], .ofSteps ["324"]),
   (["latn", "syrc"], .ofSteps ["325 8"]),
   (["latn", "sunu", "syrc"], .ofSteps ["32D"]),
   (["cher", "latn", "syrc"], .ofSteps ["330"]),
   (["aghb", "cher", "goth", "latn", "sunu", "syrc", "thai"], .ofSteps ["331"]),
   (["grek"], .ofSteps ["342 2 1A7A+1"]),
   (["latn", "osge"], .ofSteps ["358"]),
   (["aghb", "latn", "todr"], .ofSteps ["35E"]),
   (["latn"], .ofSteps ["363+C"]),
   (["copt", "grek"], .ofSteps ["374+1"]),
   (["cyrl", "perm"], .ofSteps ["483"]),
   (["cyrl", "glag"], .ofSteps ["484 2 29BB 782B"]),
   (["cyrl", "latn"], .ofSteps ["485+1"]),
   (["armn", "geor", "glag"], .ofSteps ["589"]),
   (["arab", "gara", "nkoo", "rohg", "syrc", "thaa", "yezi"], .ofSteps ["60C E"]),
   (["arab", "syrc", "thaa"], .ofSteps ["61C"]),
   (["adlm", "arab", "gara", "nkoo", "rohg", "syrc", "thaa", "yezi"], .ofSteps ["61F"]),
   (["adlm", "arab", "mand", "mani", "ougr", "phlp", "rohg", "sogd", "syrc"], .ofSteps ["640"]),
   (["arab", "syrc"], .ofSteps ["64B+A 1A"]),
   (["arab", "thaa", "yezi"], .ofSteps ["660+9"]),
   (["arab", "rohg"], .ofSteps ["6D4"]),
   (["beng", "deva", "gran", "gujr", "guru", "knda", "latn", "mlym", "nand", "newa", "orya",
     "shrd", "taml", "telu", "tirh"],
    .ofSteps ["951"]),
   (["beng", "deva", "gran", "gujr", "guru", "knda", "latn", "mlym", "newa", "orya", "taml",
     "telu", "tirh"],
    .ofSteps ["952"]),
   (["beng", "deva", "dogr", "gong", "gonm", "gran", "gujr", "guru", "knda", "mahj", "mlym",
     "nand", "onao", "orya", "sind", "sinh", "sylo", "takr", "taml", "telu", "tirh"],
    .ofSteps ["964"]),
   (["beng", "deva", "dogr", "gong", "gonm", "gran", "gujr", "gukh", "guru", "knda", "limb",
     "mahj", "mlym", "nand", "onao", "orya", "sind", "sinh", "sylo", "takr", "taml", "telu",
     "tirh"],
    .ofSteps ["965"]),
   (["deva", "dogr", "kthi", "mahj"], .ofSteps ["966+9"]),
   (["beng", "cakm", "sylo"], .ofSteps ["9E6+9"]),
   (["guru", "mult"], .ofSteps ["A66+9"]),
   (["gujr", "khoj"], .ofSteps ["AE6+9"]),
   (["gran", "taml"], .ofSteps ["BE6+D 1070D 1 37+1 C93+1 1"]),
   (["knda", "nand", "tutg"], .ofSteps ["CE6+9"]),
   (["cakm", "mymr", "tale"], .ofSteps ["1040+9"]),
   (["geor", "glag", "latn"], .ofSteps ["10FB"]),
   (["runr"], .ofSteps ["16EB+2"]),
   (["buhd", "hano", "tagb", "tglg"], .ofSteps ["1735+1"]),
   (["mong", "phag"], .ofSteps ["1802+1 1"]),
   (["beng", "deva", "gran", "knda"], .ofSteps ["1CD0 1"]),
   (["deva"], .ofSteps ["1CD1 2 6 2+1 3+5 3 1+3"]),
   (["deva", "gran", "knda"], .ofSteps ["1CD3"]),
   (["beng", "deva", "newa", "telu", "tirh"], .ofSteps ["1CD5"]),
   (["beng", "deva", "telu"], .ofSteps ["1CD6"]),
   (["deva", "newa", "shrd"], .ofSteps ["1CD7"]),
   (["beng", "deva", "newa", "telu"], .ofSteps ["1CD8"]),
   (["deva", "shrd"], .ofSteps ["1CD9 2+1 2"]),
   (["deva", "knda", "mlym", "orya", "taml", "telu"], .ofSteps ["1CDA"]),
   (["beng", "deva"], .ofSteps ["1CE1 13+1"]),
   (["deva", "newa", "tirh"], .ofSteps ["1CE2"]),
   (["deva", "nand", "newa"], .ofSteps ["1CE9"]),
   (["beng", "deva", "shrd"], .ofSteps ["1CEA"]),
   (["deva", "newa"], .ofSteps ["1CEB"]),
   (["beng", "deva", "newa", "shrd"], .ofSteps ["1CED"]),
   (["beng", "deva", "gran", "knda", "mlym", "nand", "orya", "sinh", "telu", "tirh", "tutg"],
    .ofSteps ["1CF2"]),
   (["deva", "gran"], .ofSteps ["1CF3 4+1"]),
   (["deva", "gran", "knda", "tutg"], .ofSteps ["1CF4"]),
   (["beng"], .ofSteps ["1CF7"]),
   (["nand"], .ofSteps ["1CFA"]),
   (["cyrl", "latn", "syrc"], .ofSteps ["1DF8"]),
   (["syrc"], .ofSteps ["1DFA"]),
   (["latn", "mong", "phag"], .ofSteps ["202F"]),
   (["adlm", "arab"], .ofSteps ["204F"]),
   (["cari", "geor", "glag", "hung", "lyci", "orkh"], .ofSteps ["205A"]),
   (["cari", "grek", "hung", "mero"], .ofSteps ["205D"]),
   (["deva", "gran", "latn"], .ofSteps ["20F0"]),
   (["copt", "latn"], .ofSteps ["2E17"]),
   (["avst", "orkh"], .ofSteps ["2E30"]),
   (["avst", "cari", "geor", "hung", "kthi", "lydi", "samr"], .ofSteps ["2E31"]),
   (["dupl"], .ofSteps ["2E3C 18E63+3"]),
   (["adlm", "arab", "hung"], .ofSteps ["2E41"]),
   (["hani", "tang"], .ofSteps ["2FF0+F 1EF"]),
   (["bopo", "hang", "hani", "hira", "kana", "mong", "yiii"], .ofSteps ["3001"]),
   (["bopo", "hang", "hani", "hira", "kana", "mong", "phag", "yiii"], .ofSteps ["3002"]),
   (["bopo", "hang", "hani", "hira", "kana"], .ofSteps ["3003 F 8+3 10 6 CE0D+1"]),
   (["hani"],
    .ofSteps ["3006 37+1 150+F 20+25 3A+27 38+30 F+B 33 58+18 A+4 60+1E 19F61+11 1EDE+1"]),
   (["bopo", "hang", "hani", "hira", "kana", "mong", "tibt", "yiii"], .ofSteps ["3008+1"]),
   (["bopo", "hang", "hani", "hira", "kana", "lisu", "mong", "tibt", "yiii"],
    .ofSteps ["300A+1"]),
   (["bopo", "hang", "hani", "hira", "kana", "yiii"], .ofSteps ["300C+5 2+7 DF CE65+4"]),
   (["bopo", "hani"], .ofSteps ["302A+3"]),
   (["hira", "kana"], .ofSteps ["3031+4 63+3 3 5B CE73 2D+1"]),
   (["hani", "hira", "kana"], .ofSteps ["303C+1"]),
   (["hani", "latn"], .ofSteps ["A700+7"]),
   (["deva", "dogr", "gujr", "guru", "khoj", "knda", "kthi", "mahj", "mlym", "modi", "nand",
     "shrd", "sind", "takr", "tirh", "tutg"],
    .ofSteps ["A830+2"]),
   (["deva", "dogr", "gujr", "guru", "khoj", "knda", "kthi", "mahj", "modi", "nand", "shrd",
     "sind", "takr", "tirh", "tutg"],
    .ofSteps ["A833+2"]),
   (["deva", "dogr", "gujr", "guru", "khoj", "kthi", "mahj", "modi", "sind", "takr", "tirh"],
    .ofSteps ["A836+1 1"]),
   (["deva", "dogr", "gujr", "guru", "khoj", "kthi", "mahj", "modi", "shrd", "sind", "takr",
     "tirh"],
    .ofSteps ["A838"]),
   (["beng", "deva", "tutg"], .ofSteps ["A8F1"]),
   (["deva", "taml"], .ofSteps ["A8F3"]),
   (["kali", "latn", "mymr"], .ofSteps ["A92E"]),
   (["bugi", "java"], .ofSteps ["A9CF"]),
   (["arab", "nkoo"], .ofSteps ["FD3E+1"]),
   (["arab", "thaa"], .ofSteps ["FDF2 A"]),
   (["cpmn", "cprt", "linb"], .ofSteps ["10100+1"]),
   (["cprt", "linb"], .ofSteps ["10102 34+8"]),
   (["cprt", "lina", "linb"], .ofSteps ["10107+2C"]),
   (["arab", "copt"], .ofSteps ["102E0+1B"]),
   (["mani", "ougr"], .ofSteps ["10AF2"])]

/-- All shared chars. -/
def sharedChars : CharSet := .unions (shared.map (·.2))

/-- The script of a name. -/
def ofName? (name : String) : Option Script := all.find? fun s => s.names.contains name

/-- The chars that a script is written with. -/
def extended (s : Script) : CharSet :=
  let own := (shared.filter fun (names, _) => names.any s.names.contains).map (·.2)
  (s.chars.diff sharedChars).union (.unions own)

end Script

end Highlighter.Chars
