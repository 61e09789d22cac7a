import SchemaDoc.Json.Basic

/-!
# Printing JSON

JSON over several lines, two spaces for every level.
-/

namespace SchemaDoc.Json

/-- The text that stands for a character inside a string. -/
def escapedChar (c : Char) : List Char :=
  if c == '"' || c == '\\' then ['\\', c]
  else if c == '\n' then ['\\', 'n']
  else if c == '\r' then ['\\', 'r']
  else if c == '\t' then ['\\', 't']
  else if c.toNat == 8 then ['\\', 'b']
  else if c.toNat == 12 then ['\\', 'f']
  else if c.toNat < 0x20 then
    ['\\', 'u', '0', '0', if c.toNat < 0x10 then '0' else '1'] ++ Nat.toDigits 16 (c.toNat % 16)
  else [c]

/-- A string between its quotes. -/
def quoted (s : String) : String := "\"" ++ String.ofList (s.toList.flatMap escapedChar) ++ "\""

/-- The start of a line at a level. -/
def lineStart (level : Nat) : String := "\n" ++ String.ofList (List.replicate (2 * level) ' ')

mutual
/-- The text of a value whose first line starts at a level. -/
def prettyAt (level : Nat) : Json → String
  | null => "null"
  | bool b => if b then "true" else "false"
  | number x => x.format
  | string s => quoted s
  | array [] => "[]"
  | array items => "[" ++ prettyItems (level + 1) items ++ lineStart level ++ "]"
  | object [] => "\x7b\x7d"
  | object fields => "\x7b" ++ prettyFields (level + 1) fields ++ lineStart level ++ "\x7d"

/-- The items of an array, each on its line. -/
def prettyItems (level : Nat) : List Json → String
  | [] => ""
  | [item] => lineStart level ++ prettyAt level item
  | item :: items => lineStart level ++ prettyAt level item ++ "," ++ prettyItems level items

/-- The fields of an object, each on its line. -/
def prettyFields (level : Nat) : List (String × Json) → String
  | [] => ""
  | [(key, field)] => lineStart level ++ quoted key ++ ": " ++ prettyAt level field
  | (key, field) :: fields =>
    lineStart level ++ quoted key ++ ": " ++ prettyAt level field ++ "," ++
      prettyFields level fields
end

/-- The text of a value over several lines. -/
def pretty (v : Json) : String := prettyAt 0 v

end SchemaDoc.Json
