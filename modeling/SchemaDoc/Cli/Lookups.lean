import SchemaDoc.Cli.Run

/-!
# What a run looks at

A run is a function of a tree of files, and only few of the files of a disk matter to it. The paths
listed here are those that a run over a tree asks for; a tree that has been extended by what is
found at them may ask for more, since a module that is found mentions other modules.
-/

namespace SchemaDoc.Cli

/-- The files that could have held the modules of an index that were not found. -/
def missingModules (index : ModuleIndex) : List Path :=
  index.links.flatMap fun ((importer, specifier), link) =>
    match link with
    | .failed .notFound =>
      ModuleIndex.candidates (Path.directory (index.path importer)) specifier
    | _ => []

/-- The paths at which the configuration of a run may be. -/
def configPaths (fs : FileSystem) (args : Arguments) (path : Path) : List Path :=
  match args.config with
  | some file => [file]
  | none =>
    (Path.ancestors (configDirectory fs path)).flatMap fun dir =>
      [Path.join dir Config.fileName, Path.join dir Config.boundaryName]

/-- The paths at which modules of a run may be that it has not found yet. -/
def modulePaths (fs : FileSystem) (standardInput : String) (args : Arguments) : List Path :=
  match readInput fs standardInput args with
  | .ok (some input) =>
    match ModuleIndex.ofText fs input.text input.path (Log.empty false) with
    | .ok (index, _) => missingModules index
    | .error _ => []
  | _ => []

/-- The paths that a run over a tree asks for. -/
def lookups (fs : FileSystem) (standardInput : String) (args : Arguments) : List Path :=
  match args.input? with
  | none => []
  | some path => path :: configPaths fs args path ++ modulePaths fs standardInput args

end SchemaDoc.Cli
