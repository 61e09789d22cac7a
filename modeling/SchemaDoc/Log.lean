/-!
# The log

What is reported on the way to a document. Nothing is recorded unless the log is verbose, and no
message is recorded twice, since the same name is often looked up many times.
-/

namespace SchemaDoc

/-- How serious a message is. -/
inductive Log.Level where
  /-- Something was approximated. -/
  | warning
  | info
deriving DecidableEq

/-- A recorded message. -/
structure Log.Entry where
  level : Log.Level
  message : String
deriving DecidableEq

/-- The messages recorded so far. -/
structure Log where
  verbose : Bool
  entries : Array Log.Entry
deriving DecidableEq

namespace Log

/-- A log without messages. -/
def empty (verbose : Bool) : Log := { verbose, entries := #[] }

/-- Records a message, unless the log is quiet or has it already. -/
def add (log : Log) (level : Level) (message : String) : Log :=
  if !log.verbose || log.entries.any (·.message == message) then log
  else { log with entries := log.entries.push { level, message } }

/-- Records a warning. -/
def warn (log : Log) (message : String) : Log := log.add .warning message

/-- Records a piece of information. -/
def info (log : Log) (message : String) : Log := log.add .info message

/-- A message as a line. -/
def Entry.text (e : Entry) : String :=
  match e.level with
  | .warning => "warning: " ++ e.message ++ "\n"
  | .info => "info: " ++ e.message ++ "\n"

/-- The log as text, a line for every message. -/
def text (log : Log) : String := String.join (log.entries.toList.map Entry.text)

end Log

end SchemaDoc
