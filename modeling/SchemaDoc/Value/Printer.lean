import SchemaDoc.Name
import SchemaDoc.Value.Basic

/-!
# Printing values

A value is printed as a literal that a script could contain, where it has one. Strings stand
between single quotes; double quotes or backquotes are taken if that saves escaping a quote.
-/

namespace SchemaDoc.Value

/-- The backquote. -/
def backquote : Char := Char.ofNat 96

/-- The quote that a text is put between: the first of the three that does not occur in it. -/
def quoteFor (cs : List Char) : Char :=
  if !cs.contains '\'' then '\''
  else if !cs.contains '"' then '"'
  else if !cs.contains backquote then backquote
  else '\''

/-- The text that stands for a character between quotes. -/
def quotedChar (quote c : Char) : List Char :=
  if c == '\n' then ['\\', 'n']
  else if c == '\t' then ['\\', 't']
  else if c == '\r' then ['\\', 'r']
  else if c == '\\' then ['\\', '\\']
  else if c == quote then ['\\', c]
  else [c]

/-- A text between quotes. -/
def quoted (s : String) : String :=
  let cs := s.toList
  let quote := quoteFor cs
  String.ofList (quote :: cs.flatMap (quotedChar quote) ++ [quote])

/-- A key, between quotes unless it is plain. -/
def printKey (key : String) : String := if Name.isPlainKey key then key else quoted key

/-- The name of a function between brackets. -/
def printFunction : Option String → String
  | some name => "[Function: " ++ name ++ "]"
  | none => "[Function (anonymous)]"

mutual
/-- The printed form of a value. -/
def print : Value → String
  | null => "null"
  | bool b => if b then "true" else "false"
  | num x => x.format
  | str s => quoted s
  | bigint digits => digits ++ "n"
  | typeLabel name => name
  | pattern source flags => patternText source flags
  | function f _ _ => printFunction f.name
  | native name => printFunction (some name)
  | unknown => "undefined"
  | list [] => "[]"
  | list items => "[ " ++ ", ".intercalate (printItems items) ++ " ]"
  | map [] => "\x7b\x7d"
  | map fields => "\x7b " ++ ", ".intercalate (printFields fields) ++ " \x7d"

/-- The printed items of a list. -/
def printItems : List Value → List String
  | [] => []
  | item :: items => print item :: printItems items

/-- The printed fields of a mapping. -/
def printFields : List (String × Value) → List String
  | [] => []
  | (key, field) :: fields => (printKey key ++ ": " ++ print field) :: printFields fields
end

end SchemaDoc.Value
