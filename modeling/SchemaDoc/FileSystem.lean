import SchemaDoc.Path

/-!
# File systems

A finite tree of directories, files and links, and the directory that relative paths start from. A
place in the tree is the list of names that leads to it from the root; a path is resolved to a place
by walking its pieces, and every piece that is walked through has to be a directory. At a link the
walk goes on to the target of the link, so that the place is the canonical form of all paths that
lead to it.
-/

namespace SchemaDoc

/-- What stands at a place. -/
inductive FileSystem.Node where
  | directory
  | file (content : String)
  /-- A file whose bytes are no text. -/
  | binary
  /-- A link to where a path leads, from the directory that the link is in. -/
  | link (target : Path)
deriving DecidableEq

/-- A tree of files. -/
structure FileSystem where
  /-- The nodes below the root. -/
  nodes : List (List String × FileSystem.Node)
  /-- Where relative paths start. -/
  workingDirectory : List String

namespace FileSystem

/-- A place in the tree. -/
abbrev Place := List String

/-- The node at a place. -/
def node? (fs : FileSystem) (place : Place) : Option Node :=
  if place.isEmpty then some .directory
  else (fs.nodes.find? (·.1 == place)).map (·.2)

/-- Whether a place is a directory. -/
def isDirectoryAt (fs : FileSystem) (place : Place) : Bool :=
  fs.node? place == some .directory

/-- The place that pieces lead to from a place, given where a link on the way leads to. -/
def walkWith (fs : FileSystem) (follow : Place → List String → Option Place) :
    Place → List String → Option Place
  | place, [] => some place
  | place, piece :: rest =>
    if !fs.isDirectoryAt place then none
    else if Path.isSkipped piece then walkWith fs follow place rest
    else if piece == ".." then walkWith fs follow place.dropLast rest
    else match fs.node? (place ++ [piece]) with
      | none => none
      | some (.link target) =>
        if target.isEmpty then none
        else follow (if Path.isAbsolute target then [] else place) (Path.pieces target ++ rest)
      | some _ => walkWith fs follow (place ++ [piece]) rest

/-- The place that pieces lead to from a place, if there are no more links on the way. -/
def walk (fs : FileSystem) : Nat → Place → List String → Option Place
  | 0 => fs.walkWith fun _ _ => none
  | links + 1 => fs.walkWith (fs.walk links)

/-- How many links may be on the way to a place. -/
def linkLimit : Nat := 40

/-- The place that a path names, if something is there. -/
def canonical? (fs : FileSystem) (p : Path) : Option Place :=
  if p.isEmpty then none
  else fs.walk linkLimit (if Path.isAbsolute p then [] else fs.workingDirectory) (Path.pieces p)

/-- The node that a path names. -/
def find? (fs : FileSystem) (p : Path) : Option Node := (fs.canonical? p).bind fs.node?

/-- Whether anything is at a path. -/
def pathExists (fs : FileSystem) (p : Path) : Bool := (fs.find? p).isSome

/-- Whether a file is at a path. -/
def isFile (fs : FileSystem) (p : Path) : Bool :=
  match fs.find? p with
  | some (.file _) => true
  | some .binary => true
  | _ => false

/-- The text of the file at a path. -/
def read? (fs : FileSystem) (p : Path) : Option String :=
  match fs.find? p with
  | some (.file content) => some content
  | _ => none

/-- A place as a path. -/
def pathTo (place : Place) : Path := "/" ++ "/".intercalate place

/-- The working directory as a path. -/
def workingPath (fs : FileSystem) : Path := pathTo fs.workingDirectory

/-! ### Building a tree -/

/-- Puts a node at a place, in front of what was there. -/
def put (fs : FileSystem) (place : Place) (node : Node) : FileSystem :=
  { fs with nodes := (place, node) :: fs.nodes.filter (·.1 != place) }

/-- Makes directories of all places on the way to a place, and of the place itself. -/
def addDirectory (fs : FileSystem) (place : Place) : FileSystem :=
  (List.range place.length).foldl (fun fs k => fs.put (place.take (k + 1)) .directory) fs

/-- Puts a node at a place, and directories on the way to it. -/
def addNode (fs : FileSystem) (place : Place) (node : Node) : FileSystem :=
  (fs.addDirectory place.dropLast).put place node

/-- The place that a path would name if everything on its way were a directory. -/
def placeOf (fs : FileSystem) (p : Path) : Place :=
  (Path.pieces p).foldl
    (fun place piece =>
      if Path.isSkipped piece then place
      else if piece == ".." then place.dropLast
      else place ++ [piece])
    (if Path.isAbsolute p then [] else fs.workingDirectory)

/-- A tree that holds nothing but its working directory. -/
def empty (workingDirectory : Place) : FileSystem :=
  { nodes := [], workingDirectory : FileSystem }.addDirectory workingDirectory

end FileSystem

end SchemaDoc
