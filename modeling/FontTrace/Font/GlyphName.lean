import FontTrace.Number.Integer
import FontTrace.Text.Scan

/-!
# FontTrace.Font.GlyphName

Production names of glyphs, as font formats use them: a fixed name where there
is one, `uniXXXX` or `uXXXXX` with the hexadecimal Unicode value otherwise.

`GlyphName.ofUnicode` and `GlyphName.unicode?` are meant to be inverse on
Unicode scalar values.
-/

namespace FontTrace

namespace GlyphName

/-- The names of U+0020 to U+007E. -/
def asciiNames : List String := [
  "space", "exclam", "quotedbl", "numbersign", "dollar", "percent", "ampersand", "quotesingle",
  "parenleft", "parenright", "asterisk", "plus", "comma", "hyphen", "period", "slash", "zero",
  "one", "two", "three", "four", "five", "six", "seven", "eight", "nine", "colon", "semicolon",
  "less", "equal", "greater", "question", "at", "A", "B", "C", "D", "E", "F", "G", "H", "I", "J",
  "K", "L", "M", "N", "O", "P", "Q", "R", "S", "T", "U", "V", "W", "X", "Y", "Z", "bracketleft",
  "backslash", "bracketright", "asciicircum", "underscore", "grave", "a", "b", "c", "d", "e",
  "f", "g", "h", "i", "j", "k", "l", "m", "n", "o", "p", "q", "r", "s", "t", "u", "v", "w", "x",
  "y", "z", "braceleft", "bar", "braceright", "asciitilde"
]

/-- The names of U+00A0 to U+00FF. -/
def latinNames : List String := [
  "uni00A0", "exclamdown", "cent", "sterling", "currency", "yen", "brokenbar", "section",
  "dieresis", "copyright", "ordfeminine", "guillemotleft", "logicalnot", "uni00AD", "registered",
  "macron", "degree", "plusminus", "twosuperior", "threesuperior", "acute", "mu", "paragraph",
  "periodcentered", "cedilla", "onesuperior", "ordmasculine", "guillemotright", "onequarter",
  "onehalf", "threequarters", "questiondown", "Agrave", "Aacute", "Acircumflex", "Atilde",
  "Adieresis", "Aring", "AE", "Ccedilla", "Egrave", "Eacute", "Ecircumflex", "Edieresis",
  "Igrave", "Iacute", "Icircumflex", "Idieresis", "Eth", "Ntilde", "Ograve", "Oacute",
  "Ocircumflex", "Otilde", "Odieresis", "multiply", "Oslash", "Ugrave", "Uacute", "Ucircumflex",
  "Udieresis", "Yacute", "Thorn", "germandbls", "agrave", "aacute", "acircumflex", "atilde",
  "adieresis", "aring", "ae", "ccedilla", "egrave", "eacute", "ecircumflex", "edieresis",
  "igrave", "iacute", "icircumflex", "idieresis", "eth", "ntilde", "ograve", "oacute",
  "ocircumflex", "otilde", "odieresis", "divide", "oslash", "ugrave", "uacute", "ucircumflex",
  "udieresis", "yacute", "thorn", "ydieresis"
]

/-- Frequent names elsewhere. -/
def extraNames : List (Nat × String) := [
  (0x0131, "dotlessi"), (0x0141, "Lslash"), (0x0142, "lslash"), (0x0152, "OE"), (0x0153, "oe"),
  (0x0160, "Scaron"), (0x0161, "scaron"), (0x0178, "Ydieresis"), (0x017D, "Zcaron"),
  (0x017E, "zcaron"), (0x0192, "florin"), (0x02C6, "circumflex"), (0x02C7, "caron"),
  (0x02D8, "breve"), (0x02D9, "dotaccent"), (0x02DA, "ring"), (0x02DB, "ogonek"),
  (0x02DC, "tilde"), (0x02DD, "hungarumlaut"), (0x2013, "endash"), (0x2014, "emdash"),
  (0x2018, "quoteleft"), (0x2019, "quoteright"), (0x201A, "quotesinglbase"),
  (0x201C, "quotedblleft"), (0x201D, "quotedblright"), (0x201E, "quotedblbase"),
  (0x2020, "dagger"), (0x2021, "daggerdbl"), (0x2022, "bullet"), (0x2026, "ellipsis"),
  (0x2030, "perthousand"), (0x2039, "guilsinglleft"), (0x203A, "guilsinglright"),
  (0x2122, "trademark"), (0x2212, "minus"), (0xFB00, "ff"), (0xFB01, "fi"), (0xFB02, "fl"),
  (0xFB03, "ffi"), (0xFB04, "ffl")
]

/-- Whether a number is a Unicode scalar value. -/
def isScalar (n : Nat) : Bool := n < 0xD800 || (0xE000 ≤ n && n < 0x110000)

/-- The fixed name of a Unicode value, if it has one. -/
def fixedName? (unicode : Nat) : Option String :=
  if 0x20 ≤ unicode ∧ unicode ≤ 0x7E then asciiNames[unicode - 0x20]?
  else if 0xA0 ≤ unicode ∧ unicode ≤ 0xFF then latinNames[unicode - 0xA0]?
  else extraNames.lookup unicode

/-- The production name of a Unicode value. -/
def ofUnicode (unicode : Nat) : String :=
  match fixedName? unicode with
  | some name => name
  | none =>
    if unicode ≤ 0xFFFF then "uni" ++ hexDigits 4 unicode else "u" ++ hexDigits 5 unicode

/-- The Unicode value of a fixed name: the first table that has the name counts. -/
def ofFixedName? (name : String) : Option Nat :=
  ((asciiNames.idxOf? name).map (0x20 + ·)) <|> ((latinNames.idxOf? name).map (0xA0 + ·)) <|>
    (extraNames.find? fun (_, n) => n == name).map (·.1)

/-- The digits of a systematic name: four after `uni`, or four to six after
`u`.  Lengths are counted in bytes. -/
def digits? (name : List Char) : Option (List Char) :=
  let bytes (cs : List Char) : Nat := (String.ofList cs).utf8ByteSize
  ((strip ['u', 'n', 'i'] name).filter fun ds => bytes ds == 4) <|>
    ((strip ['u'] name).filter fun ds => 4 ≤ bytes ds && bytes ds ≤ 6)

/-- The Unicode value of a production name, if it has one. -/
def unicode? (name : String) : Option Nat :=
  match ofFixedName? name with
  | some u => some u
  | none => ((digits? name.toList).bind (nat32OfText? 16)).filter isScalar

end GlyphName

end FontTrace
