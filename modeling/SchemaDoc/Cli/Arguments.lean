import SchemaDoc.Path

/-!
# Command-line arguments

Options come before the inputs. The first word that is no option starts the inputs, and from there
on every word is an input as it stands, whatever it looks like; a `--` in front of them is dropped.
Among the inputs the last word that could be a path is the one that counts.
-/

namespace SchemaDoc.Cli

/-- The arguments of a run. -/
structure Arguments where
  verbose : Bool
  /-- The configuration file that is asked for. -/
  config : Option Path
  printConfig : Bool
  inputs : List String
deriving DecidableEq

/-- Why there are no arguments to run with. -/
inductive Usage where
  | help
  | version
  /-- An option is given twice. -/
  | repeated
  /-- An option that takes a value has none. -/
  | missingValue
  /-- An option that takes no value has one. -/
  | unexpectedValue
deriving DecidableEq

namespace Arguments

/-- The word for standard input. -/
def standardInput : String := "-"

/-- The input that counts: the last word that is `-` or does not start with a hyphen. -/
def input? (a : Arguments) : Option String :=
  a.inputs.reverse.find? fun word => word == standardInput || !word.startsWith "-"

/-- No arguments. -/
def none : Arguments := { verbose := false, config := .none, printConfig := false, inputs := [] }

/-- What a word says. -/
inductive Word where
  | verbose
  | printConfig
  | help
  | version
  /-- One of the options above with a value that it does not take. -/
  | valued
  | config
  | configValue (value : String)
  /-- A hyphen and several letters of options. -/
  | cluster (letters : List Char)
  | separator
  | input

/-- The letters of the options. -/
def optionLetters : List Char := ['v', 'h', 'V']

/-- The options that take no value, by their long names. -/
def plainNames : List String := ["--verbose", "--print-config", "--help", "--version"]

/-- What a word says. -/
def Word.of (word : String) : Word :=
  if word == "--verbose" then verbose
  else if word == "--print-config" then printConfig
  else if word == "--help" then help
  else if word == "--version" then version
  else if word == "--config" then config
  else if word == "--" then separator
  else if word.startsWith "--config=" then configValue (word.drop 9).toString
  else if plainNames.any fun name => word.startsWith (name ++ "=") then valued
  else match word.toList with
    | '-' :: c :: cs => if (c :: cs).all optionLetters.contains then cluster (c :: cs) else input
    | _ => input

/-- Switches verbose output on, once. -/
def setVerbose (a : Arguments) : Except Usage Arguments :=
  if a.verbose then .error .repeated else .ok { a with verbose := true }

/-- Asks for the standard configuration, once. -/
def setPrintConfig (a : Arguments) : Except Usage Arguments :=
  if a.printConfig then .error .repeated else .ok { a with printConfig := true }

/-- Names the configuration file, once. -/
def setConfig (a : Arguments) (value : String) : Except Usage Arguments :=
  if a.config.isSome then .error .repeated
  else if value == "" then .error .missingValue
  else .ok { a with config := some value }

/-- Takes the letters of a cluster one after the other. -/
def readCluster : Arguments → List Char → Except Usage Arguments
  | a, [] => .ok a
  | a, c :: cs =>
    if c == 'h' then .error .help
    else if c == 'V' then .error .version
    else (setVerbose a).bind fun a => readCluster a cs

/-- Sets the value of `--config` that has been read last, if there is one. -/
def settle (a : Arguments) (pending : Option String) : Except Usage Arguments :=
  match pending with
  | .none => .ok a
  | some value => setConfig a value

/-- Reads the words of a command line into the arguments already read. A value behind `--config` is
pending until the next word has been looked at: if that is an option with a value that it does not
take, this is the fault that counts. The value may look like an option, but not like one that there
is. -/
def readWords : Arguments → Option String → List String → Except Usage Arguments
  | a, pending, [] => settle a pending
  | a, pending, word :: words =>
    match Word.of word with
    | .valued => .error .unexpectedValue
    | said =>
      (settle a pending).bind fun a =>
        match said with
        | .verbose => (setVerbose a).bind fun a => readWords a .none words
        | .printConfig => (setPrintConfig a).bind fun a => readWords a .none words
        | .help => .error .help
        | .version => .error .version
        | .valued => .error .unexpectedValue
        | .configValue value => (setConfig a value).bind fun a => readWords a .none words
        | .cluster letters => (readCluster a letters).bind fun a => readWords a .none words
        | .separator => .ok { a with inputs := words }
        | .input => .ok { a with inputs := word :: words }
        | .config =>
          match words with
          | [] => .error .missingValue
          | value :: words =>
            match Word.of value with
            | .input => readWords a (some value) words
            | .valued => .error .unexpectedValue
            | _ => .error .missingValue

/-- The arguments that the words of a command line spell. -/
def read (words : List String) : Except Usage Arguments := readWords none .none words

end Arguments

end SchemaDoc.Cli
