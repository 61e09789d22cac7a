import SchemaDoc.Json.Basic
import SchemaDoc.Program.Basic

/-!
# Values

What an expression evaluates to without running any code. A value that depends on something that is
not known is `unknown`, which also stands for a value that is not there. Functions are closures:
the function as it is written, the module whose names its body sees, and the scope that it was
created in.
-/

namespace SchemaDoc

/-- The number of a module. The entry file has number zero. -/
abbrev ModuleId := Nat

/-- A scope: the number of its innermost frame, or none at top level. -/
abbrev Scope := Option Nat

/-- A value. -/
inductive Value where
  | null
  | bool (b : Bool)
  | num (x : Double)
  | str (s : String)
  /-- An integer without bounds, by its decimal digits. -/
  | bigint (digits : String)
  /-- A global type, by its name. -/
  | typeLabel (name : String)
  /-- A mapping; its keys are distinct. -/
  | map (fields : List (String × Value))
  | list (items : List Value)
  /-- A regular expression. -/
  | pattern (source flags : String)
  | function (f : FunctionLit) (module : ModuleId) (scope : Scope)
  /-- A function that belongs to a global type. -/
  | native (name : String)
  | unknown

namespace Value

/-- Whether a value is unknown. -/
def isUnknown : Value → Bool
  | unknown => true
  | _ => false

/-- Whether a value counts as true, if that is known. -/
def truthy? : Value → Option Bool
  | null => some false
  | bool b => some b
  | num x => some (!x.isZero && !x.isNaN)
  | str s => some (s != "")
  | bigint digits => some (String.ofList (digits.toList.dropWhile (· == '-')) != "0")
  | typeLabel _ => some true
  | map _ => some true
  | list _ => some true
  | pattern _ _ => some true
  | function _ _ _ => some true
  | native _ => some true
  | unknown => none

/-- The name of the type of a value, if that is known. -/
def typeOf? : Value → Option String
  | null => some "object"
  | map _ => some "object"
  | list _ => some "object"
  | pattern _ _ => some "object"
  | bool _ => some "boolean"
  | num _ => some "number"
  | str _ => some "string"
  | bigint _ => some "bigint"
  | typeLabel _ => some "function"
  | function _ _ _ => some "function"
  | native _ => some "function"
  | unknown => none

/-- A regular expression between its slashes. -/
def patternText (source flags : String) : String := "/" ++ source ++ "/" ++ flags

mutual
/-- The text that a value is converted to, if that is known. -/
def text? : Value → Option String
  | null => some "null"
  | bool b => some (if b then "true" else "false")
  | num x => some x.format
  | str s => some s
  | bigint digits => some digits
  | pattern source flags => some (patternText source flags)
  | list items => (texts? items).map (",".intercalate ·)
  | map _ => some "[object Object]"
  | typeLabel _ => none
  | function _ _ _ => none
  | native _ => none
  | unknown => none

/-- The texts of the items of a list, in which null is empty. -/
def texts? : List Value → Option (List String)
  | [] => some []
  | null :: items => (texts? items).map ("" :: ·)
  | item :: items => (text? item).bind fun t => (texts? items).map (t :: ·)
end

/-- The name that a value gives a field as its type. -/
def label? : Value → Option String
  | typeLabel name => some name
  | str s => some s
  | native name => some name
  | _ => none

/-- The value under a key, if the value is a mapping. -/
def field? (key : String) : Value → Option Value
  | map fields => lookupKey? key fields
  | _ => none

mutual
/-- The value of a JSON value. -/
def ofJson : Json → Value
  | .null => null
  | .bool b => bool b
  | .number x => num x
  | .string s => str s
  | .array items => list (ofJsonItems items)
  | .object fields => map (ofJsonFields fields)

/-- The values of the items of an array. -/
def ofJsonItems : List Json → List Value
  | [] => []
  | item :: items => ofJson item :: ofJsonItems items

/-- The values of the fields of an object. -/
def ofJsonFields : List (String × Json) → List (String × Value)
  | [] => []
  | (key, field) :: fields => (key, ofJson field) :: ofJsonFields fields
end

end Value

end SchemaDoc
