import Transcode.Rule.Basic

/-!
# The built-in rules

The rules that every catalog starts with. The first four take part in every transformation of a
whole graph; each of them turns a construct that the output language lacks into one that it has.
-/

namespace Transcode.Builtin

/-- A test of one attribute. -/
def only (key : String) (test : AttributeTest) : Dict AttributeTest := Dict.empty.insert key test

/-- The template of a node's modifiers without some words. -/
def modifiersOfClass : Template :=
  .ofParts "\x7bcls.attr.modifiers|drop_word(abstract)\x7d"
    [.value "cls" (.attribute "modifiers") [.dropWord "abstract"]]
    (by decide +kernel)

/-- A class whose members are all abstract methods becomes an interface. -/
def classToInterface : Rule where
  id := "rule-1"
  name := "Class to Interface Conversion"
  source := "Java Class"
  target := "TypeScript Interface"
  description :=
    "Converts a class whose members are all abstract methods into a TypeScript interface"
  confidence := 95
  sourcePattern := {
    nodes := [{
      name := "cls"
      role := .replaced
      filter := { kinds := [.classType] }
      children := some {
        min := 1
        all := some {
          kinds := [.method]
          attributes := only "modifiers" (.hasWord "abstract") } } }] }
  targetPattern := {
    nodes := [{
      name := "iface"
      copyFrom := some "cls"
      kind := some .interfaceType
      set := Dict.empty.insert "modifiers" modifiersOfClass }] }

/-- The template of a static method's modifiers as a function. -/
def modifiersOfMethod : Template :=
  .ofParts "\x7bmethod.attr.modifiers|drop_word(static)\x7d"
    [.value "method" (.attribute "modifiers") [.dropWord "static"]]
    (by decide +kernel)

/-- The template of the name of the class that a method leaves. -/
def ownerLabel : Template :=
  .ofParts "\x7bowner.label\x7d" [.value "owner" .label []] (by decide +kernel)

/-- A static method leaves its class and becomes a function. -/
def staticToFunction : Rule where
  id := "rule-2"
  name := "Static Methods to Module Functions"
  source := "Static Method"
  target := "Module Function"
  description := "Moves a static method out of its class into a module-level function"
  confidence := 90
  sourcePattern := {
    nodes := [
      { name := "owner", filter := { kinds := [.classType] } },
      { name := "method"
        role := .replaced
        filter := {
          kinds := [.method], attributes := only "modifiers" (.hasWord "static") } }]
    edges := [⟨"owner", "method", .contains⟩] }
  targetPattern := {
    nodes := [{
      name := "function"
      copyFrom := some "method"
      kind := some .function
      set := (Dict.empty.insert "modifiers" modifiersOfMethod).insert "module" ownerLabel }] }

/-- The template of a nested class's modifiers at the top level. -/
def modifiersOfInner : Template :=
  .ofParts "\x7binner.attr.modifiers|drop_word(static)|drop_word(private)|drop_word(protected)\x7d"
    [.value "inner" (.attribute "modifiers")
      [.dropWord "static", .dropWord "private", .dropWord "protected"]]
    (by decide +kernel)

/-- The template of the name of the type that a nested class leaves. -/
def outerLabel : Template :=
  .ofParts "\x7bouter.label\x7d" [.value "outer" .label []] (by decide +kernel)

/-- A nested class leaves its type and becomes a class of its own. -/
def innerToStandalone : Rule where
  id := "rule-3"
  name := "Inner Class to Separate Class"
  source := "Inner Class"
  target := "Standalone Class"
  description := "Extracts a nested class into a top-level class"
  confidence := 92
  sourcePattern := {
    nodes := [
      { name := "outer", filter := { kinds := [.classType, .interfaceType] } },
      { name := "inner", role := .replaced, filter := { kinds := [.classType] } }]
    edges := [⟨"outer", "inner", .contains⟩] }
  targetPattern := {
    nodes := [{
      name := "standalone"
      copyFrom := some "inner"
      set := (Dict.empty.insert "modifiers" modifiersOfInner).insert "extractedFrom" outerLabel }] }

/-- The notation of names of accessor methods. -/
def accessorNotation : String := "(get|is|set)[A-Z]\\w*"

/-- Names of accessor methods. -/
def accessorNames : TextPattern :=
  ⟨accessorNotation, (Automaton.whole? accessorNotation).get (by decide +kernel), by simp⟩

/-- The template of the property that an accessor is for. -/
def propertyOfAccessor : Template :=
  .ofParts "\x7baccessor.label|property_name\x7d" [.value "accessor" .label [.propertyName]]
    (by decide +kernel)

/-- The template of a field's name without underscores at its start. -/
def plainField : Template :=
  .ofParts "\x7bfield.label|trim_underscore\x7d" [.value "field" .label [.trimUnderscores]]
    (by decide +kernel)

/-- The template of the name of the field that backs a property. -/
def backingField : Template :=
  .ofParts "_\x7bfield.label|trim_underscore\x7d"
    [.plain "_", .value "field" .label [.trimUnderscores]]
    (by decide +kernel)

/-- The template of what an accessor does. -/
def kindOfAccessor : Template :=
  .ofParts "\x7baccessor.label|accessor_kind\x7d" [.value "accessor" .label [.accessorKind]]
    (by decide +kernel)

/-- The template of an accessor's name. -/
def accessorLabel : Template :=
  .ofParts "\x7baccessor.label\x7d" [.value "accessor" .label []] (by decide +kernel)

/-- An accessor method and the field that it is for become an accessor over a backing field. -/
def accessorToProperty : Rule where
  id := "rule-4"
  name := "Getter/Setter to Property"
  source := "Accessor Methods"
  target := "TypeScript Property"
  description :=
    "Turns a get/is/set method and its backing field into a TypeScript accessor over a private "
      ++ "field"
  confidence := 85
  sourcePattern := {
    nodes := [
      { name := "owner", filter := { kinds := [.classType] } },
      { name := "accessor"
        role := .replaced
        filter := {
          kinds := [.method]
          label := some accessorNames
          attributes := only "modifiers" (.lacksWord "static") } },
      { name := "field"
        role := .replaced
        filter := {
          kinds := [.field], attributes := only "modifiers" (.lacksWord "static") } }]
    edges := [⟨"owner", "accessor", .contains⟩, ⟨"owner", "field", .contains⟩]
    constraints := [.equal propertyOfAccessor plainField] }
  targetPattern := {
    nodes := [
      { name := "property"
        copyFrom := some "accessor"
        kind := some .accessor
        label := some propertyOfAccessor
        set := ((Dict.empty.insert "accessorKind" kindOfAccessor).insert "backingField"
          backingField).insert "method" accessorLabel },
      { name := "backing", copyFrom := some "field", label := some backingField }]
    edges := [⟨"owner", "backing", .contains⟩, ⟨"owner", "property", .contains⟩]
    root := some "property"
    boundary := (Dict.empty.insert "accessor" "property").insert "field" "backing" }

/-- The template of the method that stands for a loop. -/
def forEach : Template :=
  .ofParts "forEach" [.plain "forEach"] (by decide +kernel)

/-- A loop over a collection becomes a call of a method of the collection. -/
def loopToArrayMethod : Rule where
  id := "rule-5"
  name := "For Loop to Array Methods"
  source := "Traditional For Loop"
  target := "map/filter/reduce"
  description := "Rewrites an enhanced for loop over a collection as an array method call"
  confidence := 80
  automated := false
  sourcePattern := {
    nodes := [{
      name := "loop"
      role := .replaced
      filter := { kinds := [.loop], attributes := only "loop" (.equals "foreach") } }] }
  targetPattern := {
    nodes := [{
      name := "call"
      copyFrom := some "loop"
      kind := some .arrayMethod
      label := some forEach
      set := Dict.empty.insert "method" forEach }] }

/-- The built-in rules in order. -/
def rules : List Rule :=
  [classToInterface, staticToFunction, innerToStandalone, accessorToProperty, loopToArrayMethod]

/-- The catalog of the built-in rules. -/
def catalog : Catalog := ⟨rules, by rfl⟩

end Transcode.Builtin
