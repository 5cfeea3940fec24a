/-!
# Names that Java takes

A variable of a program keeps its name in Java, so it must be none of Java's keywords and literals,
and none of the names that the body of the generated main method already uses.
-/

namespace LetWhile.Java

/-- The keywords and literals of Java. -/
def keywords : List String :=
  ["abstract", "assert", "boolean", "break", "byte", "case", "catch", "char", "class", "const",
    "continue", "default", "do", "double", "else", "enum", "extends", "final", "finally", "float",
    "for", "goto", "if", "implements", "import", "instanceof", "int", "interface", "long", "native",
    "new", "package", "private", "protected", "public", "return", "short", "static", "strictfp",
    "super", "switch", "synchronized", "this", "throw", "throws", "transient", "try", "void",
    "volatile", "while", "true", "false", "null", "_"]

/-- The names that the generated main method uses itself. -/
def mainNames : List String := ["args", "System"]

/-- Whether a variable cannot have this name. -/
def isReserved (name : String) : Bool :=
  keywords.contains name || mainNames.contains name

end LetWhile.Java
