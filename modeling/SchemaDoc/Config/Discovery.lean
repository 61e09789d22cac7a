import SchemaDoc.Config.Json
import SchemaDoc.Error
import SchemaDoc.FileSystem

/-!
# Finding the configuration

The configuration of a directory is the file `.docgenrc.json` in it or in the nearest directory
above it. The search does not leave a repository: it ends at a directory that holds `.git`.
-/

namespace SchemaDoc.Config

/-- The name of configuration files. -/
def fileName : String := ".docgenrc.json"

/-- The name that marks the top of a repository. -/
def boundaryName : String := ".git"

/-- The configuration file of the first directory that has one, unless a boundary comes before. -/
def search (fs : FileSystem) : List Path → Option Path
  | [] => none
  | dir :: dirs =>
    let file := Path.join dir fileName
    if fs.pathExists file then some file
    else if fs.pathExists (Path.join dir boundaryName) then none
    else search fs dirs

/-- The configuration file that holds for a directory. -/
def find? (fs : FileSystem) (start : Path) : Option Path := search fs (Path.ancestors start)

/-- The configuration in a file. -/
def loadFile (fs : FileSystem) (path : Path) : Except Error Config :=
  match fs.read? path with
  | none => .error (.unreadableConfig path)
  | some text =>
    match parse text with
    | none => .error (.malformedConfig path)
    | some config =>
      match config.problem? with
      | some problem => .error (.invalidConfig problem)
      | none => .ok config

/-- The configuration that holds for a directory, and the file it comes from if there is one. -/
def load (fs : FileSystem) (start : Path) : Except Error (Config × Option Path) :=
  match find? fs start with
  | some path => (loadFile fs path).map fun config => (config, some path)
  | none => .ok (standard, none)

end SchemaDoc.Config
