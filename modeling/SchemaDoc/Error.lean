import SchemaDoc.Config.Basic
import SchemaDoc.Path

/-!
# Errors

The conditions under which there is no document. A name that cannot be resolved is never one of
them.
-/

namespace SchemaDoc

/-- A source text that breaks off or does not continue at a line. -/
structure ParseFailure where
  path : Path
  line : Nat
deriving DecidableEq

/-- The failure in words. -/
def ParseFailure.message (f : ParseFailure) : String :=
  s!"failed to parse {f.path} (line {f.line})"

/-- Why a module could not be loaded. -/
inductive LoadFailure where
  | notFound
  | notText
  | notJson
  | notScript (failure : ParseFailure)
deriving DecidableEq

/-- The failure in words. -/
def LoadFailure.message : LoadFailure → String
  | notFound => "file not found"
  | notText => "stream did not contain valid UTF-8"
  | notJson => "invalid JSON"
  | notScript failure => failure.message

/-- Why there is no document. -/
inductive Error where
  /-- The entry file does not parse. -/
  | parse (failure : ParseFailure)
  /-- The entry file cannot be read. -/
  | unreadableEntry (path : Path)
  /-- A module whose value is needed could not be loaded. -/
  | moduleLoad (specifier : String) (importer : Path) (reason : LoadFailure)
  /-- The definition of a schema has a shape that lists no fields. -/
  | unsupportedShape (shape : String) (schema : String)
  | noSchema
  | invalidConfig (problem : Config.Problem)
  | unreadableConfig (path : Path)
  | malformedConfig (path : Path)
  /-- The input exists and is no text. -/
  | unreadableInput (path : Path)
deriving DecidableEq

/-- The error in words. -/
def Error.message : Error → String
  | parse failure => failure.message
  | unreadableEntry path => s!"failed to read {path}"
  | moduleLoad specifier importer reason =>
    s!"cannot load module '{specifier}' required from {importer}: {reason.message}"
  | unsupportedShape shape schema => s!"unsupported {shape} in schema definition of '{schema}'"
  | noSchema => "no schema declaration found (expected `new Schema(\x7b ... \x7d)`)"
  | invalidConfig problem => s!"invalid configuration: {problem.message}"
  | unreadableConfig path => s!"Failed to read config file: {Path.quoted path}"
  | malformedConfig path => s!"Failed to parse config file: {Path.quoted path}"
  | unreadableInput path => s!"Failed to read {path}"

end SchemaDoc
