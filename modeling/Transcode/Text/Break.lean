import Transcode.Text.BinaryProperty
import Transcode.Text.Script

/-!
# How characters divide text

Text falls into the characters that a reader sees, into words and into sentences. The three
properties `Grapheme_Cluster_Break`, `Word_Break` and `Sentence_Break` say what part a character
takes in that; each value is a set, and a character of no set has the value `Other`.
-/

namespace Transcode.Text

open BinaryProperty

/-- The marks of any kind, and the characters that behave like them. -/
def extendingPoints : CodePoints :=
  .unions [categories [.nonspacingMark, .spacingMark, .enclosingMark], graphemeExtend,
    emojiModifier]

/-- The regional indicators, of which two make a flag. -/
def regionalIndicatorPoints : CodePoints := .ofText "1F1E6-1F1FF"

/-- The joiner of two characters into one. -/
def joinerPoints : CodePoints := .ofText "200D"

/-- The return of the carriage. -/
def carriageReturnPoints : CodePoints := .ofText "D"

/-- The feed of a line. -/
def lineFeedPoints : CodePoints := .ofText "A"

/-! ### Characters as a reader sees them -/

namespace GraphemeBreak

/-- What stays with the character before it. -/
def extend : CodePoints := (graphemeExtend.union emojiModifier).diff joinerPoints

/-- What stands alone. -/
def control : CodePoints :=
  (CodePoints.unions [categories [.lineSeparator, .paragraphSeparator, .control, .format],
    (category .unassigned).inter defaultIgnorableCodePoint]).diff
      (.unions [.ofText "A D 200C-200D", prependedConcatenationMark, extend])

/-- What stays with the character after it. -/
def prepend : CodePoints :=
  prependedConcatenationMark.union
    (.ofText "D4E 111C2-111C3 113D1 1193F 11941 11A84-11A89 11D46 11F02")

/-- Marks with a width of their own that stand apart nevertheless. -/
def detachedMarks : CodePoints := .ofText <| " ".intercalate
  ["102B-102C 1038 1062-1064 1067-106D 1083 1087-108C 108F 109A-109C 1A61 1A63-1A64 AA7B AA7D",
   "11720-11721"]

/-- Marks with a width of their own. -/
def spacingMark : CodePoints :=
  ((category .spacingMark).union (.ofText "E33 EB3")).diff
    (.unions [graphemeExtend, emojiModifier, detachedMarks])

/-- The syllables of two parts. -/
def twoPartSyllables : CodePoints :=
  .ofCodes ((List.range 399).map (0xAC00 + 28 * ·))

/-- The values by name. -/
def names : List (List String × CodePoints) :=
  [(["cn", "control"], control), (["cr"], carriageReturnPoints), (["ex", "extend"], extend),
   (["l"], .ofText "1100-115F A960-A97C"), (["lf"], lineFeedPoints), (["lv"], twoPartSyllables),
   (["lvt"], (CodePoints.ofText "AC00-D7A3").diff twoPartSyllables), (["pp", "prepend"], prepend),
   (["ri", "regionalindicator"], regionalIndicatorPoints), (["sm", "spacingmark"], spacingMark),
   (["t"], .ofText "11A8-11FF D7CB-D7FB"),
   (["v"], .ofText "1160-11A7 D7B0-D7C6 16D63 16D67-16D6A"), (["zwj"], joinerPoints)]

end GraphemeBreak

/-! ### Words -/

namespace WordBreak

/-- Marks and what behaves like them. -/
def extend : CodePoints := extendingPoints.diff joinerPoints

/-- Characters that change the form of others. -/
def format : CodePoints :=
  (category .format).diff (.unions [.ofText "200B-200D", extend, prependedConcatenationMark])

/-- The marks in front of numbers. -/
def numberSigns : CodePoints := prependedConcatenationMark.diff (.ofText "70F")

/-- Digits, and what stands in numbers. -/
def numeric : CodePoints := .unions [digit, .ofText "66B", numberSigns]

/-- Syllables of Katakana, with its marks. -/
def katakana : CodePoints :=
  (Script.points "kana").union (.ofText "3031-3035 309B-309C 30A0 30FC FF70")

/-- Letters of Hebrew. -/
def hebrewLetter : CodePoints := (category .otherLetter).inter (Script.points "hebr")

/-- Letters of languages that put no space between words. -/
def unspacedLetters : CodePoints := .ofText <| " ".intercalate
  ["E01-E3A E40-E4E E81-E82 E84 E86-E8A E8C-EA3 EA5 EA7-EBD EC0-EC4 EC6 EC8-ECE EDC-EDF 1000-103F",
   "1050-108F 109A-109F 1780-17D3 17D7 17DC-17DD 1950-196D 1970-1974 1980-19AB 19B0-19C9 19DA",
   "19DE-19DF 1A20-1A5E 1A60-1A7C 1AA0-1AAD A9E0-A9EF A9FA-A9FE AA60-AAC2 AADB-AADF 11700-1171A",
   "1171D-1172B 1173A-1173B 1173F-11746"]

/-- Marks that count as letters. -/
def letterSigns : CodePoints := .ofText <| " ".intercalate
  ["2C2-2C5 2D2-2D7 2DE-2DF 2E5-2EB 2ED 2EF-2FF 55A-55C 55E 58A 5F3 70F A708-A716 A720-A721",
   "A789-A78A AB5B"]

/-- Letters that make words. -/
def aLetter : CodePoints :=
  (alphabetic.union letterSigns).diff
    (.unions [ideographic, katakana, unspacedLetters, Script.points "hira", extendingPoints,
      hebrewLetter])

/-- The values by name. -/
def names : List (List String × CodePoints) :=
  [(["cr"], carriageReturnPoints), (["dq", "doublequote"], .ofText "22"),
   (["ex", "extendnumlet"], (category .connectorPunctuation).union (.ofText "202F")),
   (["extend"], extend), (["fo", "format"], format), (["hl", "hebrewletter"], hebrewLetter),
   (["ka", "katakana"], katakana), (["le", "aletter"], aLetter), (["lf"], lineFeedPoints),
   (["mb", "midnumlet"], .ofText "2E 2018-2019 2024 FE52 FF07 FF0E"),
   (["ml", "midletter"], .ofText "3A B7 387 55F 5F4 2027 FE13 FE55 FF1A"),
   (["mn", "midnum"],
    .ofText "2C 3B 37E 589 60C-60D 66C 7F8 2044 FE10 FE14 FE50 FE54 FF0C FF1B"),
   (["nl", "newline"], .ofText "B-C 85 2028-2029"), (["nu", "numeric"], numeric),
   (["ri", "regionalindicator"], regionalIndicatorPoints), (["sq", "singlequote"], .ofText "27"),
   (["wsegspace"], .ofText "20 1680 2000-2006 2008-200A 205F 3000"), (["zwj"], joinerPoints)]

end WordBreak

/-! ### Sentences -/

namespace SentenceBreak

/-- Marks and what behaves like them. -/
def extend : CodePoints := (extendingPoints.diff emojiModifier).union joinerPoints

/-- The ends of paragraphs. -/
def separator : CodePoints := .ofText "85 2028-2029"

/-- Blanks inside a sentence. -/
def space : CodePoints := whiteSpace.diff (separator.union (.ofText "A D"))

/-- Characters that change the form of others. -/
def format : CodePoints :=
  ((category .format).diff
    (.unions [.ofText "200C-200D", extendingPoints, prependedConcatenationMark])).union
      (.ofText "70F")

/-- Small letters. -/
def lower : CodePoints :=
  lowercase.diff (extendingPoints.union (.ofText "10D0-10FA 10FD-10FF"))

/-- Capital letters. -/
def upper : CodePoints :=
  ((category .titlecaseLetter).union uppercase).diff (.ofText "1C90-1CBA 1CBD-1CBF")

/-- Letters without case. -/
def oLetter : CodePoints :=
  (alphabetic.union (.ofText "5F3")).diff (.unions [lower, upper, extendingPoints])

/-- Digits, and what stands in numbers. -/
def numeric : CodePoints := .unions [digit, .ofText "66B-66C", WordBreak.numberSigns]

/-- The full stops. -/
def aTerm : CodePoints := .ofText "2E 2024 FE52 FF0E"

/-- Brackets and quotation marks. -/
def close : CodePoints :=
  .unions [categories [.openPunctuation, .closePunctuation, .initialPunctuation,
    .finalPunctuation], .ofText "22 27 275B-2760 2E00-2E01 2E06-2E08 2E0B 1F676-1F678"]

/-- Punctuation inside a sentence. -/
def continuation : CodePoints := .ofText <| " ".intercalate
  ["2C-2D 3A-3B 37E 55D 60C-60D 7F8 1802 1808 2013-2014 3001 FE10-FE11 FE13-FE14 FE31-FE32",
   "FE50-FE51 FE54-FE55 FE58 FE63 FF0C-FF0D FF1A-FF1B FF64"]

/-- The values by name. -/
def names : List (List String × CodePoints) :=
  [(["at", "aterm"], aTerm), (["cl", "close"], close), (["cr"], carriageReturnPoints),
   (["ex", "extend"], extend), (["fo", "format"], format), (["le", "oletter"], oLetter),
   (["lf"], lineFeedPoints), (["lo", "lower"], lower), (["nu", "numeric"], numeric),
   (["sc", "scontinue"], continuation), (["se", "sep"], separator), (["sp"], space),
   (["st", "sterm"], sentenceTerminal.diff aTerm), (["up", "upper"], upper)]

end SentenceBreak

end Transcode.Text
