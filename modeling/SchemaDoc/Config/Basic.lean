import SchemaDoc.Name

/-!
# Configuration

The tables that say which constructor calls declare a schema and how the fields of a definition are
read.
-/

namespace SchemaDoc

/-- The tables that drive the search for schemas and the reading of their fields. -/
structure Config where
  /-- Constructor names that create a schema. -/
  schemaConstructors : List String
  /-- Namespaces through which a constructor may be reached. -/
  schemaNamespaces : List String
  /-- The key that holds the type of a field inside a definition. -/
  typeMarker : String
  /-- The options that are shown, in the order in which they are shown. -/
  options : List String
  /-- Global names that stand for themselves as types. -/
  builtinTypes : List String
deriving DecidableEq

namespace Config

/-- The configuration that holds when nothing else is said. -/
def standard : Config where
  schemaConstructors := ["Schema"]
  schemaNamespaces := ["mongoose"]
  typeMarker := "type"
  options :=
    ["ref", "required", "unique", "select", "default", "enum", "lowercase", "trim", "min", "max",
      "validate"]
  builtinTypes :=
    ["String", "Number", "Boolean", "Date", "Buffer", "Object", "Array", "Map", "Set", "RegExp",
      "Function", "Symbol", "BigInt", "Promise", "Error", "Math", "JSON", "Int8Array",
      "Uint8Array", "ArrayBuffer"]

/-- Whether a key is an option of a field. -/
def isOption (c : Config) (key : String) : Bool := c.options.contains key

/-- Whether a name is a global type. -/
def isBuiltinType (c : Config) (name : String) : Bool := c.builtinTypes.contains name

/-- Whether calling a name declares a schema. -/
def isSchemaConstructor (c : Config) (name : String) : Bool := c.schemaConstructors.contains name

/-- Whether a name holds schema constructors. -/
def isSchemaNamespace (c : Config) (name : String) : Bool := c.schemaNamespaces.contains name

/-- What can be wrong with a configuration. -/
inductive Problem where
  | noConstructor
  | badName (table name : String)
  | badMarker (marker : String)
deriving DecidableEq

/-- The problem in words. -/
def Problem.message : Problem → String
  | noConstructor => "'schemaConstructors' must not be empty"
  | badName table name => s!"'{table}' contains an invalid name: \"{name}\""
  | badMarker marker => s!"'typeMarker' is not a valid name: \"{marker}\""

/-- The tables of names under the keys they are written with, in the order of checking. -/
def tables (c : Config) : List (String × List String) :=
  [("schemaConstructors", c.schemaConstructors), ("schemaNamespaces", c.schemaNamespaces),
    ("options", c.options), ("builtinTypes", c.builtinTypes)]

/-- The first name of a table that is no plain key. -/
def badName? (table : String × List String) : Option Problem :=
  (table.2.find? (!Name.isPlainKey ·)).map (.badName table.1)

/-- The first problem of a configuration: there is a constructor, and all names are plain keys. -/
def problem? (c : Config) : Option Problem :=
  if c.schemaConstructors.isEmpty then some .noConstructor
  else match c.tables.findSome? badName? with
    | some problem => some problem
    | none => if Name.isPlainKey c.typeMarker then none else some (.badMarker c.typeMarker)

end Config

end SchemaDoc
