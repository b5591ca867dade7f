/-!
# Reserved words

The words of the source language that cannot be names, and those that modify a declaration.
-/

namespace Transcode

/-- The words that cannot be names. -/
def keywords : List String :=
  ["abstract", "assert", "boolean", "break", "byte", "case", "catch", "char", "class",
   "const", "continue", "default", "do", "double", "else", "enum", "extends", "false",
   "final", "finally", "float", "for", "goto", "if", "implements", "import", "instanceof",
   "int", "interface", "long", "native", "new", "null", "package", "private", "protected",
   "public", "return", "short", "static", "strictfp", "super", "switch", "synchronized",
   "this", "throw", "throws", "transient", "true", "try", "void", "volatile", "while"]

/-- The words that may stand before a declaration. -/
def modifierWords : List String :=
  ["public", "private", "protected", "static", "abstract", "final", "native", "synchronized",
   "transient", "volatile", "strictfp", "default", "sealed"]

/-- The types that are not declared by a class. -/
def primitiveWords : List String :=
  ["boolean", "byte", "char", "short", "int", "long", "float", "double"]

/-- Whether a word is reserved. -/
def isKeyword (word : String) : Bool := keywords.contains word

/-- Whether a word modifies a declaration. -/
def isModifier (word : String) : Bool := modifierWords.contains word

/-- Whether a word names a primitive type of a variable. -/
def isPrimitive (word : String) : Bool := primitiveWords.contains word

/-- Whether a reserved word stands for a type of a member: a primitive type or `void`. -/
def isTypeWord (word : String) : Bool := isPrimitive word || word = "void"

end Transcode
