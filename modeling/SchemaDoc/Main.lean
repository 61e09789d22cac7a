import SchemaDoc.Cli.Lookups

/-!
# The program

Reads the files that a run asks for from the disk, runs, and writes what the run leaves behind.
-/

open SchemaDoc

namespace SchemaDoc.Cli

/-- What stands on the disk where no link is. -/
def probe (path : Path) : IO FileSystem.Node := do
  if ← (← IO.FS.realPath path).isDir then return .directory
  match String.fromUTF8? (← IO.FS.readBinFile path) with
  | some text => return .file text
  | none => return .binary

/-- Extends a tree by what the disk has on the way from a directory along pieces. Links are followed
where they stand, and kept in the tree. -/
def follow (fs : FileSystem) (dir : FileSystem.Place) : List String → IO FileSystem
  | [] => return fs
  | piece :: rest => do
    if Path.isSkipped piece then follow fs dir rest
    else if piece == ".." then follow fs dir.dropLast rest
    else
      let here := dir ++ [piece]
      let target := (← IO.FS.realPath (FileSystem.pathTo here)).toString
      let place := fs.placeOf target
      let node ← probe target
      let found := fs.addNode place node
      follow (if place == here then found else found.addNode here (.link target)) place rest

/-- Extends a tree by what the disk has at the paths that a run asks for, until it asks for nothing
new. -/
partial def gather (standardInput : String) (args : Arguments) (tried : List Path)
    (fs : FileSystem) : IO FileSystem := do
  let fresh := (lookups fs standardInput args).filter (!tried.contains ·)
  if fresh.isEmpty then return fs
  let mut extended := fs
  for path in fresh do
    let start := if Path.isAbsolute path then [] else fs.workingDirectory
    try extended ← follow extended start (Path.pieces path)
    catch _ => pure ()
  gather standardInput args (fresh ++ tried) extended

/-- All of standard input. -/
partial def readStandardInput (done : String) : IO String := do
  let line ← (← IO.getStdin).getLine
  if line.isEmpty then return done else readStandardInput (done ++ line)

/-- The text for a reason not to run. -/
def usageText : Usage → String
  | .help => usage
  | .version => "mongoose-docgen 0.1.0"
  | .repeated => "error: an option is given twice"
  | .missingValue => "error: an option needs a value"
  | .unexpectedValue => "error: an option takes no value"

/-- The text for a run that stopped. -/
def stopText : Stop → String
  | .error e => "error: " ++ e.message
  | .exhausted => "error: the document has no end"

/-- Runs with arguments on the disk. -/
def runOnDisk (args : Arguments) : IO UInt32 := do
  let standardInput ←
    if args.input? == some Arguments.standardInput then readStandardInput "" else pure ""
  let place := (Path.pieces (← IO.currentDir).toString).filter (!Path.isSkipped ·)
  let fs ← gather standardInput args [] (FileSystem.empty place)
  let result := run fs standardInput args
  IO.print result.output
  IO.eprint result.errors
  match result.status with
  | .success => return 0
  | .noInput => return 1
  | .stopped reason =>
    IO.eprintln (stopText reason)
    return 2

end SchemaDoc.Cli

/-- The program. -/
def main (words : List String) : IO UInt32 := do
  match Cli.Arguments.read words with
  | .ok args => Cli.runOnDisk args
  | .error usage =>
    if usage == .help || usage == .version then
      IO.println (Cli.usageText usage)
      return 0
    else
      IO.eprintln (Cli.usageText usage)
      return 2
