import SchemaDoc.Text.Class
import SchemaDoc.Text.UpperCase

/-!
# Names

The two questions a document asks about a name: may it be written as a property key without quotes,
and what label does a schema of that name get.
-/

namespace SchemaDoc.Name

/-- A character that may start a plain key. -/
def isPlainStart (c : Char) : Bool := Text.isAlphabetic c || c == '_' || c == '$'

/-- A character that may continue a plain key. -/
def isPlainPart (c : Char) : Bool := Text.isAlphanumeric c || c == '_' || c == '$'

/-- Whether a key may be written without quotes. -/
def isPlainKey (name : String) : Bool :=
  match name.toList with
  | [] => false
  | c :: cs => isPlainStart c && cs.all isPlainPart

/-- The name with its first character in upper case. -/
def capitalized (name : String) : String := String.ofList (Text.capitalize name.toList)

/-- The word that names of schemas end in. -/
def schemaSuffix : List Char := "Schema".toList

/-- The name without its final `Schema`, unless it is nothing else. -/
def withoutSuffix (cs : List Char) : List Char :=
  let rest := cs.take (cs.length - schemaSuffix.length)
  if schemaSuffix.isSuffixOf cs && !rest.isEmpty then rest else cs

/-- The label of a schema: its name without a final `Schema`, capitalized. -/
def schemaLabel (name : String) : String :=
  String.ofList (Text.capitalize (withoutSuffix name.toList))

end SchemaDoc.Name
