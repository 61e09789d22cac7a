import SchemaDoc.Text.Printable

/-!
# Paths

A path is text whose pieces are separated by slashes. Paths are never normalised: joining a
directory `a` and a specifier `../b` gives `a/../b`, and that is how the path is shown. Empty pieces
and the piece `.` do not count as components, except that a path may start with one of them: with an
empty piece it is absolute, with `.` it is explicitly relative.
-/

namespace SchemaDoc

/-- A path as text. -/
abbrev Path := String

namespace Path

/-- The pieces of a text between slashes; there is always at least one. -/
def splitSlash : List Char → List (List Char)
  | [] => [[]]
  | c :: cs =>
    if c == '/' then [] :: splitSlash cs
    else match splitSlash cs with
      | piece :: pieces => (c :: piece) :: pieces
      | [] => [[c]]

/-- The pieces of a path. -/
def pieces (p : Path) : List String := (splitSlash p.toList).map String.ofList

/-- Whether a path starts at the root. -/
def isAbsolute (p : Path) : Bool := p.toList.head? == some '/'

/-- The second path seen from the first. -/
def join (base p : Path) : Path :=
  if isAbsolute p || base.isEmpty then p
  else if base.toList.getLast? == some '/' then base ++ p
  else base ++ "/" ++ p

/-- A piece that is no component when it does not come first. -/
def isSkipped (piece : String) : Bool := piece == "" || piece == "."

/-- The reversed pieces of a path, from the last component on. The first piece of the path always
stays. -/
def dropSkipped : List String → List String
  | [] => []
  | [piece] => [piece]
  | piece :: rest => if isSkipped piece then dropSkipped rest else piece :: rest

/-- The path without its last component. A path that has no component, such as the root, has no
parent. -/
def parent? (p : Path) : Option Path :=
  match dropSkipped (pieces p).reverse with
  | [] => none
  | [piece] => if piece == "" then none else some ""
  | _ :: rest =>
    match dropSkipped rest with
    | [""] => some "/"
    | rest => some ("/".intercalate rest.reverse)

/-- The last component, if it is a name. -/
def fileName? (p : Path) : Option String :=
  match dropSkipped (pieces p).reverse with
  | piece :: _ => if isSkipped piece || piece == ".." then none else some piece
  | [] => none

/-- What follows the last dot of the file name; a dot that comes first does not count. -/
def extension? (p : Path) : Option String :=
  (fileName? p).bind fun name =>
    let reversed := name.toList.reverse
    let tail := reversed.takeWhile (· != '.')
    match reversed.drop tail.length with
    | '.' :: _ :: _ => some (String.ofList tail.reverse)
    | _ => none

/-- The directory that the specifiers in a file are relative to. -/
def directory (p : Path) : Path :=
  match parent? p with
  | none => "."
  | some "" => "."
  | some dir => dir

/-- A path and the paths got by dropping its last component again and again, at most `fuel`
times. -/
def ancestorsUpTo : Nat → Path → List Path
  | 0, p => [p]
  | fuel + 1, p =>
    match parent? p with
    | none => [p]
    | some dir => p :: ancestorsUpTo fuel dir

/-- A path, its parent, and so on. There are no more ancestors than pieces. -/
def ancestors (p : Path) : List Path := ancestorsUpTo (pieces p).length p

/-- Whether a module specifier names a file, and not a package. -/
def isRelative (specifier : String) : Bool :=
  specifier.startsWith "./" || specifier.startsWith "../" || specifier.startsWith "/"

/-- The text that stands for a character between double quotes. One that cannot be seen on its own
is written by its code point. -/
def quotedChar (c : Char) : List Char :=
  if c == '"' || c == '\\' then ['\\', c]
  else if c == '\n' then ['\\', 'n']
  else if c == '\r' then ['\\', 'r']
  else if c == '\t' then ['\\', 't']
  else if c.toNat == 0 then ['\\', '0']
  else if Text.isPrintable c then [c]
  else ['\\', 'u', '\x7b'] ++ Nat.toDigits 16 c.toNat ++ ['\x7d']

/-- A path between double quotes, as error messages show it. -/
def quoted (p : Path) : String := "\"" ++ String.ofList (p.toList.flatMap quotedChar) ++ "\""

end Path

end SchemaDoc
