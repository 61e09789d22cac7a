import SchemaDoc.Value.Printer

/-!
# Options

How the options of a field are shown: a flag that is set by its name, an enumeration by its choices,
a validation not at all, and anything else by its name and its value.
-/

namespace SchemaDoc.Document

/-- The choices of an enumeration: a list, or a list under the key `values`. -/
def choices? : Value → Option (List Value)
  | .list items => some items
  | .map fields =>
    match lookupKey? "values" fields with
    | some (.list items) => some items
    | _ => none
  | _ => none

/-- A choice as text. -/
def choiceText (v : Value) : String := v.text?.getD v.print

/-- The choices of an enumeration between quotes, with bars between them. -/
def alternation (choices : List Value) : String :=
  "'" ++ "|".intercalate (choices.map choiceText) ++ "'"

/-- Whether a value sets a flag. -/
def setsFlag : Value → Bool
  | .bool b => b
  | .str s => s == "true"
  | _ => false

/-- An option as it is shown, if it is. -/
def optionText? (name : String) (value : Value) : Option String :=
  if value.isUnknown || name == "validate" then none
  else if setsFlag value then some name
  else
    match if name == "enum" then choices? value else none with
    | some choices => some (alternation choices)
    | none => some (name ++ ": " ++ value.print)

/-- Options as code, one after the other. -/
def fenced (options : List String) : String :=
  " ".intercalate (options.map fun o => "\x60\x60" ++ o ++ "\x60\x60")

end SchemaDoc.Document
