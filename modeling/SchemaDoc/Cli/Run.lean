import SchemaDoc.Cli.Arguments
import SchemaDoc.Config.Discovery
import SchemaDoc.Document.Basic

/-!
# Running the command line

A run reads the file that its arguments name, finds the configuration that holds for it and writes
the document. Without a file to read it shows how it is used. What is reported on the way goes to
the error channel, and stays there if the run fails.
-/

namespace SchemaDoc.Cli

/-- How a run ends. -/
inductive Status where
  | success
  /-- There was nothing to read. -/
  | noInput
  | stopped (reason : Stop)
deriving DecidableEq

/-- What a run leaves behind. -/
structure Result where
  status : Status
  output : String
  errors : String
deriving DecidableEq

/-- How the program is used. -/
def usage : String := "Usage: mongoose-docgen [filePath]"

/-- What a run reads: the text and the path that it goes by. -/
structure Input where
  text : String
  path : Path

/-- The input of a run, if there is one. -/
def readInput (fs : FileSystem) (standardInput : String) (args : Arguments) :
    Except Error (Option Input) :=
  match args.input? with
  | none => .ok none
  | some word =>
    if word == Arguments.standardInput then .ok (some ⟨standardInput, word⟩)
    else if !fs.isFile word then .ok none
    else match fs.read? word with
      | none => .error (.unreadableInput word)
      | some text => .ok (some ⟨text, word⟩)

/-- The directory whose configuration holds for a path. -/
def configDirectory (fs : FileSystem) (path : Path) : Path :=
  match Path.parent? path with
  | some parent => if parent == "" then fs.workingPath else parent
  | none => fs.workingPath

/-- A step of a run, which may fail and adds to the log. -/
abbrev Step := ExceptT Stop (StateM Log)

/-- Records a piece of information. -/
def Step.info (message : String) : Step Unit := modify fun log => log.info message

/-- A result that may be an error. -/
def Step.ofExcept {α : Type} : Except Error α → Step α
  | .ok a => return a
  | .error e => throw (.error e)

/-- The configuration of a run. -/
def findConfig (fs : FileSystem) (args : Arguments) (path : Path) : Step Config := do
  match args.config with
  | some file =>
    Step.info ("using config " ++ file)
    Step.ofExcept (Config.loadFile fs file)
  | none =>
    let (config, file) ← Step.ofExcept (Config.load fs (configDirectory fs path))
    match file with
    | some file => Step.info ("using config " ++ file)
    | none => Step.info "no config file found, using defaults"
    return config

/-- The modules that an input reaches. -/
def buildIndex (fs : FileSystem) (input : Input) : Step ModuleIndex := do
  let (index, log) ← Step.ofExcept (ModuleIndex.ofText fs input.text input.path (← get))
  set log
  Step.info s!"{index.modules.length} module(s) indexed"
  return index

/-- A computation over modules as a step. Nothing is left of one that has no end. -/
def Step.ofEval {α : Type} (index : ModuleIndex) (config : Config)
    (x : Environment → Session → Option (Except Stop α × Session)) : Step α := fun log =>
  match x { index, config } (Session.start log) with
  | some (r, session) => (r, session.log)
  | none => (.error .exhausted, log)

/-- The document of an input. -/
def document (fs : FileSystem) (args : Arguments) (input : Input) : Step String := do
  let config ← findConfig fs args input.path
  let index ← buildIndex fs input
  Step.ofEval index config Document.render

/-- Runs with arguments. -/
def run (fs : FileSystem) (standardInput : String) (args : Arguments) : Result :=
  if args.printConfig then ⟨.success, Config.standardText ++ "\n", ""⟩
  else
    match readInput fs standardInput args with
    | .error e => ⟨.stopped (.error e), "", ""⟩
    | .ok none => ⟨.noInput, "", usage ++ "\n"⟩
    | .ok (some input) =>
      match document fs args input (Log.empty args.verbose) with
      | (.ok text, log) => ⟨.success, text, log.text⟩
      | (.error reason, log) => ⟨.stopped reason, "", log.text⟩

end SchemaDoc.Cli
