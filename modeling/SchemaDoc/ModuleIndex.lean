import SchemaDoc.FileSystem
import SchemaDoc.Json.Written
import SchemaDoc.Log
import SchemaDoc.Program.Parse
import SchemaDoc.Program.Reattach
import SchemaDoc.Value.Basic

/-!
# The module index

Before anything is evaluated, every file that can be reached from the entry file is loaded: the
index holds the modules, and for every specifier in a module where it leads. A file is loaded once,
however many specifiers lead to it. A file that cannot be loaded is no error here; the failure is
kept with the specifier and matters only if the value of the module is needed.

Specifiers that name a package are not followed.
-/

namespace SchemaDoc

/-- What a module holds. -/
inductive ModuleSource where
  | script (program : Program)
  | json (value : Json)

/-- A loaded module: its path as it was found, and what it holds. -/
structure SourceModule where
  path : Path
  source : ModuleSource

/-- The program of a module, if it is a script. -/
def SourceModule.program? (m : SourceModule) : Option Program :=
  match m.source with
  | .script program => some program
  | .json _ => none

/-- Where a specifier leads. -/
inductive Link where
  | loaded (id : ModuleId)
  | failed (reason : LoadFailure)
deriving DecidableEq

/-- The modules that can be reached from the entry file. -/
structure ModuleIndex where
  modules : List SourceModule
  links : List ((ModuleId × String) × Link)

namespace ModuleIndex

/-- A module of the index. -/
def module? (index : ModuleIndex) (id : ModuleId) : Option SourceModule := index.modules[id]?

/-- The path of a module. -/
def path (index : ModuleIndex) (id : ModuleId) : Path := ((index.module? id).map (·.path)).getD ""

/-- The program of a module, if it is a script. -/
def program? (index : ModuleIndex) (id : ModuleId) : Option Program :=
  (index.module? id).bind SourceModule.program?

/-- Where a specifier in a module leads; specifiers of packages lead nowhere. -/
def link? (index : ModuleIndex) (importer : ModuleId) (specifier : String) : Option Link :=
  (index.links.find? (·.1 == (importer, specifier))).map (·.2)

/-! ### Finding files -/

/-- The endings that are tried for a specifier that names no file. -/
def extensions : List String := [".js", ".cjs", ".mjs", ".ts", ".json"]

/-- The files that are tried in a directory. -/
def indexFiles : List String := ["index.js", "index.ts", "index.json"]

/-- The files that a specifier may mean, seen from a directory, the first choice first. -/
def candidates (directory : Path) (specifier : String) : List Path :=
  let target := Path.join directory specifier
  target :: extensions.map (target ++ ·) ++ indexFiles.map (Path.join target)

/-- The file that a specifier means. -/
def resolve? (fs : FileSystem) (directory : Path) (specifier : String) : Option Path :=
  (candidates directory specifier).find? fs.isFile

/-- Loads the module in a file, with the specifiers it mentions. -/
def loadModule (fs : FileSystem) (path : Path) :
    Except LoadFailure (ModuleSource × List String) :=
  match fs.read? path with
  | none => .error .notText
  | some text =>
    if Path.extension? path == some "json" then
      match Json.parse text with
      | some value => .ok (.json value, [])
      | none => .error .notJson
    else
      match ParsedSource.ofText text path with
      | .ok parsed => .ok (.script parsed.program.reattach, parsed.requires)
      | .error failure => .error (.notScript failure)

/-! ### Building the index -/

/-- An index that is being built: what is loaded, from where, and what is still to be followed. -/
structure Builder where
  index : ModuleIndex
  places : List (FileSystem.Place × ModuleId)
  queue : List (ModuleId × List String)
  log : Log

namespace Builder

/-- Adds a link. -/
def addLink (b : Builder) (importer : ModuleId) (specifier : String) (link : Link) : Builder :=
  { b with index := { b.index with links := b.index.links ++ [((importer, specifier), link)] } }

/-- Adds a module that was loaded from a file, with a link to it. -/
def addModule (b : Builder) (importer : ModuleId) (specifier : String) (path : Path)
    (place : FileSystem.Place) (source : ModuleSource) (requires : List String) : Builder :=
  let id := b.index.modules.length
  let added : SourceModule := { path, source }
  let b := { b with
    index := { b.index with modules := b.index.modules ++ [added] }
    places := b.places ++ [(place, id)]
    queue := b.queue ++ [(id, requires)]
    log := b.log.info s!"indexed module {path}" }
  b.addLink importer specifier (.loaded id)

/-- Follows a specifier to a file. -/
def followTo (fs : FileSystem) (b : Builder) (importer : ModuleId) (specifier : String)
    (path : Path) (place : FileSystem.Place) : Builder :=
  match b.places.find? (·.1 == place) with
  | some (_, id) => b.addLink importer specifier (.loaded id)
  | none =>
    match loadModule fs path with
    | .ok (source, requires) => b.addModule importer specifier path place source requires
    | .error reason => b.addLink importer specifier (.failed reason)

/-- Follows a specifier in a module. -/
def follow (fs : FileSystem) (importer : ModuleId) (b : Builder) (specifier : String) : Builder :=
  if !Path.isRelative specifier then b
  else
    match resolve? fs (Path.directory (b.index.path importer)) specifier with
    | none => b.addLink importer specifier (.failed .notFound)
    | some path => b.followTo fs importer specifier path ((fs.canonical? path).getD [])

/-- Follows the specifiers of all modules in the queue, at most `fuel` of them. -/
def followAll (fs : FileSystem) : Nat → Builder → Builder
  | 0, b => b
  | fuel + 1, b =>
    match b.queue with
    | [] => b
    | (importer, specifiers) :: queue =>
      followAll fs fuel (specifiers.foldl (follow fs importer) { b with queue })

end Builder

/-- The index of an entry file with a given text. Every module but the entry comes from a file of
its own, so there are no more modules to follow than files. -/
def ofText (fs : FileSystem) (text : String) (path : Path) (log : Log) :
    Except Error (ModuleIndex × Log) :=
  match ParsedSource.ofText text path with
  | .error failure => .error (.parse failure)
  | .ok parsed =>
    let entry : SourceModule := { path, source := .script parsed.program.reattach }
    let start : Builder :=
      { index := { modules := [entry], links := [] }
        places := ((fs.canonical? path).map fun place => (place, 0)).toList
        queue := [(0, parsed.requires)]
        log }
    let b := Builder.followAll fs (fs.nodes.length + 1) start
    .ok (b.index, b.log)

/-- The index of an entry file. -/
def load (fs : FileSystem) (path : Path) (log : Log) : Except Error (ModuleIndex × Log) :=
  match fs.read? path with
  | none => .error (.unreadableEntry path)
  | some text => ofText fs text path log

end ModuleIndex

end SchemaDoc
