import SchemaDoc.Value.Basic

/-!
# Operators

What operators do with known values. An operator whose result would need more than is known gives
`unknown`.
-/

namespace SchemaDoc.Value

open Script (UnaryOp BinaryOp)

/-- The number that a value is converted to. -/
def number? : Value → Option Double
  | num x => some x
  | bool b => some (if b then Double.ofNat 1 else Double.zero false)
  | null => some (Double.zero false)
  | str s => some (Double.ofText s)
  | _ => none

/-- Whether a value is null, a truth value, a number, a text or an integer. -/
def isPrimitive : Value → Bool
  | null => true
  | bool _ => true
  | num _ => true
  | str _ => true
  | bigint _ => true
  | _ => false

/-- Strict equality. -/
def strictEquals? : Value → Value → Option Bool
  | null, null => some true
  | bool a, bool b => some (a == b)
  | num a, num b => some (a.equals b)
  | str a, str b => some (a == b)
  | bigint a, bigint b => some (a == b)
  | a, b => if a.isPrimitive && b.isPrimitive then some false else none

/-- Whether a value is a truth value, a number or a text. -/
def isConvertible : Value → Bool
  | bool _ => true
  | num _ => true
  | str _ => true
  | _ => false

/-- Equality after conversion to numbers. -/
def numericEquals? (a b : Value) : Option Bool :=
  a.number?.bind fun x => b.number?.map fun y => x.equals y

/-- Loose equality. -/
def looseEquals? (a b : Value) : Option Bool :=
  match a, b with
  | null, null => some true
  | str s, str t => some (s == t)
  | null, b => if b.isConvertible then some false else strictEquals? null b
  | a, null => if a.isConvertible then some false else strictEquals? a null
  | a, b => if a.isConvertible && b.isConvertible then numericEquals? a b else strictEquals? a b

/-- How two texts compare, by code points. -/
def compareText (s t : String) : Ordering :=
  if s < t then .lt else if s == t then .eq else .gt

/-- How two values compare. The inner result is missing if one of them is no number. -/
def compare? (a b : Value) : Option (Option Ordering) :=
  match a, b with
  | str s, str t => some (some (compareText s t))
  | a, b => a.number?.bind fun x => b.number?.map fun y => x.compare? y

/-- A comparison; nothing compares with what is no number. -/
def compares? (test : Ordering → Bool) (a b : Value) : Option Bool :=
  (compare? a b).map fun
    | some o => test o
    | none => false

/-- Whether adding a value joins texts. -/
def joinsText : Value → Bool
  | str _ => true
  | map _ => true
  | list _ => true
  | pattern _ _ => true
  | _ => false

/-- An operation on numbers. -/
def arithmetic (f : Double → Double → Double) (a b : Value) : Value :=
  match a.number?, b.number? with
  | some x, some y => num (f x y)
  | _, _ => unknown

/-- Addition: of texts if one side is a text or a collection, of numbers otherwise. -/
def add (a b : Value) : Value :=
  if a.joinsText || b.joinsText then
    match a.text?, b.text? with
    | some s, some t => str (s ++ t)
    | _, _ => unknown
  else arithmetic Double.add a b

/-- A truth value that may not be known. -/
def ofBool? : Option Bool → Value
  | some b => bool b
  | none => unknown

/-- An operator applied to two values. The operators that may skip their second operand are not
among these. -/
def binary (op : BinaryOp) (a b : Value) : Value :=
  match op with
  | .add => add a b
  | .sub => arithmetic Double.sub a b
  | .mul => arithmetic Double.mul a b
  | .div => arithmetic Double.div a b
  | .rem => arithmetic Double.rem a b
  | .strictEq => ofBool? (strictEquals? a b)
  | .strictNotEq => ofBool? ((strictEquals? a b).map (!·))
  | .eq => ofBool? (looseEquals? a b)
  | .notEq => ofBool? ((looseEquals? a b).map (!·))
  | .lt => ofBool? (compares? (·.isLT) a b)
  | .le => ofBool? (compares? (·.isLE) a b)
  | .gt => ofBool? (compares? (·.isGT) a b)
  | .ge => ofBool? (compares? (·.isGE) a b)
  | .and => unknown
  | .or => unknown
  | .nullish => unknown

/-- An operator applied to one value. -/
def unary (op : UnaryOp) (a : Value) : Value :=
  match op with
  | .minus => (a.number?.map fun x => num x.neg).getD unknown
  | .plus => (a.number?.map num).getD unknown
  | .not => ofBool? (a.truthy?.map (!·))
  | .typeOf => (a.typeOf?.map str).getD unknown

/-- A property of a value. A mapping has its fields; the property of a global type is a function;
and of anything else a property is its own name, so that a type reached through a package that is
not analyzed still has a label. -/
def member (object : Value) (property : String) : Value :=
  match object.field? property with
  | some v => v
  | none =>
    match object with
    | typeLabel _ => native property
    | _ => str property

/-- A global type called as a function. -/
def callType (name : String) (args : List Value) : Value :=
  let first := args.head?.getD unknown
  match name with
  | "String" => (first.text?.map str).getD unknown
  | "Number" => (first.number?.map num).getD unknown
  | "Boolean" => ofBool? first.truthy?
  | "RegExp" =>
    match args with
    | [str source] => pattern source ""
    | str source :: str flags :: _ => pattern source flags
    | _ => unknown
  | _ => unknown

end SchemaDoc.Value
