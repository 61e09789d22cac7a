import SchemaDoc.Config.Basic
import SchemaDoc.Json.Printer
import SchemaDoc.Json.Written

/-!
# Configuration as JSON

A configuration is written as an object with the names of its tables as keys. A key that is left
out keeps its standard value; a key that is given twice or holds anything but names is an error;
other keys are skipped, and their values only have to be written correctly. An array is read too:
its items fill the tables in order.
-/

namespace SchemaDoc.Config

/-- A table of a configuration. -/
inductive Table where
  | schemaConstructors
  | schemaNamespaces
  | typeMarker
  | options
  | builtinTypes
deriving DecidableEq

namespace Table

/-- The tables in the order in which they are written. -/
def all : List Table :=
  [schemaConstructors, schemaNamespaces, typeMarker, options, builtinTypes]

/-- The key of a table. -/
def key : Table → String
  | schemaConstructors => "schemaConstructors"
  | schemaNamespaces => "schemaNamespaces"
  | typeMarker => "typeMarker"
  | options => "options"
  | builtinTypes => "builtinTypes"

/-- The table of a key. -/
def ofKey? (key : String) : Option Table := all.find? (·.key == key)

end Table

/-- The name that is written. -/
def name? : Json.Written → Option String
  | .string s => s
  | _ => none

/-- The names that are written in an array. -/
def names? : Json.Written → Option (List String)
  | .array items => items.mapM name?
  | _ => none

/-- The configuration with one table replaced by what is written. -/
def set? (c : Config) (w : Json.Written) : Table → Option Config
  | .schemaConstructors => (names? w).map fun names => { c with schemaConstructors := names }
  | .schemaNamespaces => (names? w).map fun names => { c with schemaNamespaces := names }
  | .typeMarker => (name? w).map fun name => { c with typeMarker := name }
  | .options => (names? w).map fun names => { c with options := names }
  | .builtinTypes => (names? w).map fun names => { c with builtinTypes := names }

/-- Reads the fields of an object into a configuration. The tables already given may not be given
again. -/
def readFields : List Table → Config → List (Option String × Json.Written) → Option Config
  | _, c, [] => some c
  | given, c, (key, field) :: fields =>
    key.bind fun key =>
      match Table.ofKey? key with
      | none => readFields given c fields
      | some table =>
        if given.contains table then none
        else (c.set? field table).bind fun c => readFields (table :: given) c fields

/-- Reads the items of an array into the tables of a configuration. -/
def readItems : List Table → Config → List Json.Written → Option Config
  | _, c, [] => some c
  | [], _, _ :: _ => none
  | table :: tables, c, item :: items =>
    (c.set? item table).bind fun c => readItems tables c items

/-- The configuration that is written. -/
def ofWritten? : Json.Written → Option Config
  | .object fields => readFields [] standard fields
  | .array items => readItems Table.all standard items
  | _ => none

/-- The configuration that a JSON text holds. -/
def parse (text : String) : Option Config := (Json.Written.read text).bind ofWritten?

/-- The value of a table as JSON. -/
def tableJson (c : Config) : Table → Json
  | .schemaConstructors => .array (c.schemaConstructors.map .string)
  | .schemaNamespaces => .array (c.schemaNamespaces.map .string)
  | .typeMarker => .string c.typeMarker
  | .options => .array (c.options.map .string)
  | .builtinTypes => .array (c.builtinTypes.map .string)

/-- The configuration as JSON. -/
def toJson (c : Config) : Json :=
  .object (Table.all.map fun table => (table.key, c.tableJson table))

/-- The text of the standard configuration. -/
def standardText : String := standard.toJson.pretty

end SchemaDoc.Config
