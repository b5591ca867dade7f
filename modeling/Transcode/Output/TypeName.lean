import Transcode.Source.Keyword
import Transcode.Text.Words

/-!
# Types in the output

How the output writes the types, type parameters and parameters of a source text. A type is an array
of a shorter type, a wildcard for a shorter bound, or a name with arguments that are all shorter.
-/

namespace Transcode.Output

open Text

/-- An array type; an element type with a blank in it needs parentheses. -/
def arrayOf (element : String) : String :=
  if element.toList.contains ' ' then "(" ++ element ++ ")[]" else element ++ "[]"

/-- The element type of an array or variable-arity type. -/
def elementType? (type : List Char) : Option (List Char) :=
  (stripEnd? ['[', ']'] type).or (stripEnd? ['.', '.', '.'] type)

/-- The bound of a wildcard. -/
def boundType? (type : List Char) : Option (List Char) :=
  (stripStart? "? extends ".toList type).or (stripStart? "? super ".toList type)

/-- A type's name and the list of its arguments. -/
def nameAndArguments (type : List Char) : List Char × List (List Char) :=
  match cutAt (· = '<') type, stripEnd? ['>'] type with
  | (name, some arguments), some _ => (trimBoth name, topLevelPieces ',' arguments.dropLast)
  | _, _ => (type, [])

/-- Without its ending a text is shorter. -/
theorem length_lt_of_stripEnd? {ending type rest : List Char} (hne : ending ≠ [])
    (h : stripEnd? ending type = some rest) : rest.length < type.length := by
  unfold stripEnd? at h
  obtain ⟨reversed, hreversed, rfl⟩ := Option.map_eq_some_iff.mp h
  have := congrArg List.length (stripStart?_eq_some_iff.mp hreversed)
  have hpos := List.length_pos_iff.mpr hne
  simp only [List.length_reverse, List.length_append] at this ⊢
  omega

/-- Without its beginning a text is shorter. -/
theorem length_lt_of_stripStart? {beginning type rest : List Char} (hne : beginning ≠ [])
    (h : stripStart? beginning type = some rest) : rest.length < type.length := by
  have := congrArg List.length (stripStart?_eq_some_iff.mp h)
  have hpos := List.length_pos_iff.mpr hne
  simp only [List.length_append] at this
  omega

/-- The type of the elements of an array is shorter than that of the array. -/
theorem length_elementType?_lt {type element : List Char} (h : elementType? type = some element) :
    element.length < type.length := by
  rcases Option.or_eq_some_iff.mp h with h | ⟨_, h⟩
  · exact length_lt_of_stripEnd? (by simp) h
  · exact length_lt_of_stripEnd? (by simp) h

/-- The bound of a wildcard is shorter than the wildcard. -/
theorem length_boundType?_lt {type bound : List Char} (h : boundType? type = some bound) :
    bound.length < type.length := by
  rcases Option.or_eq_some_iff.mp h with h | ⟨_, h⟩
  · exact length_lt_of_stripStart? (by decide) h
  · exact length_lt_of_stripStart? (by decide) h

/-- What stands behind a cut is shorter than the text. -/
theorem length_cutAt_lt {test : Char → Bool} {cs before after : List Char}
    (h : cutAt test cs = (before, some after)) : after.length < cs.length := by
  induction cs generalizing before with
  | nil => simp [cutAt] at h
  | cons c rest ih =>
      simp only [cutAt] at h
      split at h
      · simp only [Prod.mk.injEq, Option.some.injEq] at h
        simp [← h.2]
      · simp only [Prod.mk.injEq] at h
        have := ih (Prod.ext rfl h.2)
        simp only [List.length_cons]
        omega

/-- An argument of a type is shorter than the type. -/
theorem length_argument_lt {type argument : List Char}
    (h : argument ∈ (nameAndArguments type).2) : argument.length < type.length := by
  unfold nameAndArguments at h
  split at h
  · rename_i name arguments _ hcut _
    have := length_le_of_mem_topLevelPieces h
    have hlt := length_cutAt_lt hcut
    simp only [List.length_dropLast] at this
    omega
  · simp at h

/-- How numbers are named in a source text. -/
def numberNames : List String :=
  ["byte", "short", "int", "long", "float", "double", "Byte", "Short", "Integer", "Long", "Float",
   "Double", "Number", "BigInteger", "BigDecimal"]

/-- How texts are named in a source text. -/
def textNames : List String := ["char", "Character", "String", "CharSequence"]

/-- How collections of one kind of element are named in a source text. -/
def collectionNames : List String :=
  ["List", "ArrayList", "LinkedList", "Collection", "Iterable", "Set", "HashSet", "TreeSet",
   "LinkedHashSet"]

/-- How collections of keys with values are named in a source text. -/
def mapNames : List String := ["Map", "HashMap", "TreeMap", "LinkedHashMap"]

/-- A named type with its arguments, which are written already. -/
def namedType (name : String) (arguments : List String) : String :=
  let argument (i : Nat) := arguments.getD i "any"
  if numberNames.contains name then "number"
  else if textNames.contains name then "string"
  else if name = "boolean" || name = "Boolean" then "boolean"
  else if name = "void" || name = "Void" then "void"
  else if name = "Object" then "any"
  else if collectionNames.contains name then arrayOf (argument 0)
  else if mapNames.contains name then "Map<" ++ argument 0 ++ ", " ++ argument 1 ++ ">"
  else if arguments.isEmpty then name
  else name ++ "<" ++ ", ".intercalate arguments ++ ">"

/-- How a trimmed type is written. -/
def typeChars (type : List Char) : String :=
  if type.isEmpty || type = ['?'] then "any"
  else
    match _helement : elementType? type with
    | some element => arrayOf (typeChars (trimBoth element))
    | none =>
      match _hbound : boundType? type with
      | some bound => typeChars (trimBoth bound)
      | none =>
        namedType (String.ofList (afterLast (· = '.') (nameAndArguments type).1))
          ((nameAndArguments type).2.attach.map fun ⟨argument, _⟩ => typeChars argument)
termination_by type.length
decreasing_by
  · exact Nat.lt_of_le_of_lt (length_trimBoth_le element) (length_elementType?_lt _helement)
  · exact Nat.lt_of_le_of_lt (length_trimBoth_le bound) (length_boundType?_lt _hbound)
  · exact length_argument_lt ‹_›

/-- How a type is written. -/
def typeName (type : String) : String := typeChars (trimBoth type.toList)

/-- A type parameter, with its bounds if it has any. -/
def typeParameter (parameter : List Char) : String :=
  match cutAtText " extends ".toList parameter with
  | some (name, bounds) =>
    String.ofList (trimBoth name) ++ " extends " ++
      " & ".intercalate ((topLevelPieces '&' bounds).map typeChars)
  | none => String.ofList (trimBoth parameter)

/-- What is between the angle brackets around a text, or the text if it has none. -/
def withoutAngles (text : List Char) : List Char :=
  ((stripStart? ['<'] text).bind (stripEnd? ['>'])).getD text

/-- How type parameters are written. -/
def typeParameters (text : String) : String :=
  let inner := withoutAngles (trimBoth text.toList)
  if inner.all isBlank then ""
  else "<" ++ ", ".intercalate ((topLevelPieces ',' inner).map typeParameter) ++ ">"

/-- A parameter of a callable. -/
structure Parameter where
  type : String
  name : String
  deriving DecidableEq, Repr

/-- The parameter that a text declares: its last word is the name. Modifiers and annotations do not
count. -/
def parameter? (text : String) : Option Parameter :=
  let kept := (words text).filter fun word => !isModifier word && word.toList.head? != some '@'
  kept.getLast?.map fun name => ⟨" ".intercalate kept.dropLast, name⟩

/-- The parameters that a list declares. -/
def parameters (text : String) : List Parameter := (splitTopLevel text ',').filterMap parameter?

/-- How a parameter is written; one of variable arity is spread. -/
def Parameter.written (parameter : Parameter) : String :=
  match stripEnd? ['.', '.', '.'] parameter.type.toList with
  | some element => "..." ++ parameter.name ++ ": " ++ arrayOf (typeName (String.ofList element))
  | none => parameter.name ++ ": " ++ typeName parameter.type

/-- How a list of parameters is written. -/
def parameterList (text : String) : String := ", ".intercalate ((parameters text).map (·.written))

/-- How each of a list of supertypes is written. -/
def supertypes (text : String) : List String := (splitTopLevel text ',').map typeName

end Transcode.Output
