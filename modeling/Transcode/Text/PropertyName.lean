import Transcode.Text.Break

/-!
# Properties by name

The sets of characters that a property or a value of a property stands for. Names are compared
without case, blanks, hyphens and underscores, and may begin with `is`.
-/

namespace Transcode.Text

/-- Whether a character counts in the name of a property. -/
def countsInName (c : Char) : Bool := isAscii c && c != ' ' && c != '_' && c != '-'

/-- A name as it is compared. The letter that is left of `isc` would stand for something else, so
that name stays whole. -/
def normalName (name : List Char) : String :=
  let plain (cs : List Char) := (cs.filter countsInName).map Char.toLower
  match name with
  | i :: s :: rest =>
    if i.toLower = 'i' && s.toLower = 's' then
      if plain rest = ['c'] then "isc" else String.ofList (plain rest)
    else String.ofList (plain name)
  | name => String.ofList (plain name)

/-- The general categories and groups of them by name. A surrogate is no character. -/
def categoryNames : List (List String × List GeneralCategory) :=
  let casedLetters := [.uppercaseLetter, .lowercaseLetter, .titlecaseLetter]
  [(["l", "letter"], letterCategories), (["lc", "casedletter"], casedLetters),
   (["lu", "uppercaseletter"], [.uppercaseLetter]), (["ll", "lowercaseletter"], [.lowercaseLetter]),
   (["lt", "titlecaseletter"], [.titlecaseLetter]), (["lm", "modifierletter"], [.modifierLetter]),
   (["lo", "otherletter"], [.otherLetter]),
   (["m", "mark", "combiningmark"], [.nonspacingMark, .spacingMark, .enclosingMark]),
   (["mn", "nonspacingmark"], [.nonspacingMark]), (["mc", "spacingmark"], [.spacingMark]),
   (["me", "enclosingmark"], [.enclosingMark]),
   (["n", "number"], [.decimalNumber, .letterNumber, .otherNumber]),
   (["nd", "decimalnumber", "digit"], [.decimalNumber]), (["nl", "letternumber"], [.letterNumber]),
   (["no", "othernumber"], [.otherNumber]),
   (["p", "punctuation", "punct"], [.connectorPunctuation, .dashPunctuation, .openPunctuation,
      .closePunctuation, .initialPunctuation, .finalPunctuation, .otherPunctuation]),
   (["pc", "connectorpunctuation"], [.connectorPunctuation]),
   (["pd", "dashpunctuation"], [.dashPunctuation]),
   (["ps", "openpunctuation"], [.openPunctuation]),
   (["pe", "closepunctuation"], [.closePunctuation]),
   (["pi", "initialpunctuation"], [.initialPunctuation]),
   (["pf", "finalpunctuation"], [.finalPunctuation]),
   (["po", "otherpunctuation"], [.otherPunctuation]),
   (["s", "symbol"], [.mathSymbol, .currencySymbol, .modifierSymbol, .otherSymbol]),
   (["sm", "mathsymbol"], [.mathSymbol]), (["sc", "currencysymbol"], [.currencySymbol]),
   (["sk", "modifiersymbol"], [.modifierSymbol]), (["so", "othersymbol"], [.otherSymbol]),
   (["z", "separator"], [.spaceSeparator, .lineSeparator, .paragraphSeparator]),
   (["zs", "spaceseparator"], [.spaceSeparator]), (["zl", "lineseparator"], [.lineSeparator]),
   (["zp", "paragraphseparator"], [.paragraphSeparator]),
   (["c", "other"], [.control, .format, .unassigned, .privateUse]),
   (["cc", "control", "cntrl"], [.control]), (["cf", "format"], [.format]),
   (["cn", "unassigned"], [.unassigned]), (["co", "privateuse"], [.privateUse])]

/-- The characters of the categories that a name stands for. -/
def categoryOfName? (name : String) : Option CodePoints :=
  match name with
  | "any" => some .characters
  | "ascii" => some (.ofText "0-7F")
  | "assigned" => some (BinaryProperty.category .unassigned).compl
  | name =>
    (categoryNames.find? (·.1.contains name)).map fun found => BinaryProperty.categories found.2

/-- The characters of the script that a name stands for. -/
def scriptOfName? (name : String) : Option CodePoints := (Script.codeOf? name).map Script.points

/-- The characters that a version of Unicode knows. -/
def ageOfName? (name : String) : Option CodePoints :=
  (Age.versions.find? fun version =>
    version.1 = name || "v" ++ String.ofList (version.1.toList.filter (· != '.')) = name).bind
      fun version => Age.upTo? version.1

/-- The characters with a value of one of the properties that have names for their values. -/
def valueOfName? (table : List (List String × CodePoints)) (name : String) : Option CodePoints :=
  (table.find? (·.1.contains name)).map (·.2)

/-- The characters that a name alone stands for: a property that holds or does not, else a category,
else a script. -/
def pointsOfName? (name : List Char) : Option CodePoints :=
  let name := normalName name
  (BinaryProperty.ofName? name <|> categoryOfName? name) <|> scriptOfName? name

/-- The characters with a value of a property, both by name. -/
def pointsOfValue? (property value : List Char) : Option CodePoints :=
  let value := normalName value
  match normalName property with
  | "gc" | "generalcategory" => categoryOfName? value
  | "sc" | "script" => scriptOfName? value
  | "scx" | "scriptextensions" => (Script.codeOf? value).map Script.extension
  | "age" => ageOfName? value
  | "gcb" | "graphemeclusterbreak" => valueOfName? GraphemeBreak.names value
  | "wb" | "wordbreak" => valueOfName? WordBreak.names value
  | "sb" | "sentencebreak" => valueOfName? SentenceBreak.names value
  | _ => none

end Transcode.Text
