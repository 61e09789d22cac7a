import SchemaDoc.Program.Basic
import SchemaDoc.Text.Class

/-!
# Descriptions

The description of a field is the text of its comments, line by line. A line loses its white space
at both ends and one star in front, the margin of a block comment; lines that are empty then are
left out. The lines are joined by a hard line break of Markdown and indented with their field.
-/

namespace SchemaDoc.Description

/-- The lines of a text. -/
def lines : List Char → List (List Char)
  | [] => [[]]
  | c :: cs =>
    if c == '\n' then [] :: lines cs
    else match lines cs with
      | line :: rest => (c :: line) :: rest
      | [] => [[c]]

/-- A text without white space in front. -/
def trimStart (cs : List Char) : List Char := cs.dropWhile Text.isWhiteSpace

/-- A text without white space at the end. -/
def trimEnd (cs : List Char) : List Char := (cs.reverse.dropWhile Text.isWhiteSpace).reverse

/-- A line without its margin and without white space at its ends. -/
def cleanLine (cs : List Char) : List Char :=
  trimEnd <| match trimStart cs with
    | '*' :: rest => trimStart rest
    | rest => rest

/-- The lines of a text that say something, cleaned. -/
def cleanLines (text : String) : List String :=
  ((lines text.toList).map cleanLine).filter (!·.isEmpty) |>.map String.ofList

/-- A hard line break. -/
def lineBreak : String := "  \n"

/-- The cleaned text of a comment. -/
def clean (text : String) : String := lineBreak.intercalate (cleanLines text)

/-- The indentation of a level. -/
def indentation (depth : Nat) : String := String.ofList (List.replicate (2 * depth) ' ')

/-- A text with all its lines indented for a level. -/
def indent (text : String) (depth : Nat) : String :=
  if text.isEmpty then text
  else "\n".intercalate
    ((lines text.toList).map fun line => indentation depth ++ String.ofList line)

/-- The description that comments give a field at a level. -/
def ofComments (comments : List Comment) (depth : Nat) : String :=
  indent (clean ("\n".intercalate (comments.map (·.text)))) depth

/-- A bullet with its description below it, if there is one. -/
def attach (bullet description : String) : String :=
  if description.isEmpty then bullet else bullet ++ lineBreak ++ description

end SchemaDoc.Description
