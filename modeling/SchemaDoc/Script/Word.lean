/-!
# Words

Some words are never names, and some are names only in certain places. Where a word stands is its
`Surroundings`; strict code starts with a directive, inside every class, and after the first import
or export of a file.
-/

namespace SchemaDoc.Script

/-- The words that are never names. -/
def reservedWords : List String :=
  ["break", "case", "catch", "class", "const", "continue", "debugger", "default", "delete", "do",
    "else", "enum", "export", "extends", "false", "finally", "for", "function", "if", "import",
    "in", "instanceof", "new", "null", "return", "super", "switch", "this", "throw", "true", "try",
    "typeof", "var", "void", "while", "with"]

/-- The words that are no names in strict code. -/
def strictWords : List String :=
  ["implements", "interface", "let", "package", "private", "protected", "public", "static",
    "yield"]

/-- What the meaning of a word depends on. -/
structure Surroundings where
  strict : Bool
  /-- Whether the file has imports or exports. -/
  isModule : Bool
  inAsync : Bool
  inGenerator : Bool
  inStaticBlock : Bool
deriving DecidableEq, Repr

/-- Whether a word is no name in some surroundings. -/
def Surroundings.reserves (s : Surroundings) (w : String) : Bool :=
  reservedWords.contains w || (s.strict && strictWords.contains w) ||
    (w == "await" && (s.isModule || s.inAsync || s.inStaticBlock)) ||
    (w == "yield" && s.inGenerator)

/-- The words that are keywords wherever they stand, so that they open no arrow function. -/
def isKeyword (w : String) : Bool :=
  (reservedWords.contains w && w != "enum") || w == "let" || w == "await" || w == "yield"

end SchemaDoc.Script
