import SchemaDoc.Config.Basic
import SchemaDoc.Document.Description
import SchemaDoc.Error

/-!
# Schemas and their members

A schema is declared by a constructor call whose argument lists its fields: an object literal, or a
name that is bound to one. Besides its fields a schema has members that single statements add:
virtuals with a getter, methods and statics.
-/

namespace SchemaDoc.Document

/-- Whether a callee constructs a schema. -/
def constructsSchema (config : Config) : Expr → Bool
  | .ident _ name => config.isSchemaConstructor name
  | .member _ (.ident _ object) property =>
    config.isSchemaConstructor property && config.isSchemaNamespace object
  | _ => false

/-- The entries that a definition lists, if it is an object literal or names one. -/
def definitionEntries? (program : Program) : Expr → Option (List Entry)
  | .object _ entries => some entries
  | .ident _ name => (program.declaredInit? name).bind Expr.objectEntries?
  | _ => none

/-- The fields of a constructor call, if the expression is one. A call without arguments declares
none; a definition that lists no fields is an error. -/
def schemaFields (program : Program) (config : Config) (e : Expr) (schema : String) :
    Except Error (Option (List Entry)) :=
  match e with
  | .call _ _ callee args =>
    if !constructsSchema config callee then .ok none
    else
      match args with
      | [] => .ok (some [])
      | definition :: _ =>
        match definitionEntries? program definition with
        | some entries => .ok (some entries)
        | none => .error (.unsupportedShape definition.shapeName schema)
  | _ => .ok none

/-- A declared schema: its name and its fields. -/
structure SchemaDecl where
  name : String
  entries : List Entry

/-- The schemas among declarators. -/
def schemasIn (program : Program) (config : Config) :
    List Declarator → Except Error (List SchemaDecl)
  | [] => .ok []
  | d :: ds =>
    match d.binding, d.init with
    | .ident name, some init =>
      match schemaFields program config init name with
      | .error e => .error e
      | .ok found =>
        (schemasIn program config ds).map fun rest =>
          match found with
          | some entries => ⟨name, entries⟩ :: rest
          | none => rest
    | _, _ => schemasIn program config ds

/-- The declarators of a statement. -/
def declaratorsOf (s : Statement) : List Declarator :=
  match s.kind with
  | .declare _ ds => ds
  | _ => []

/-- The schemas that a program declares, in the order of the text. -/
def schemas (program : Program) (config : Config) : Except Error (List SchemaDecl) :=
  schemasIn program config (program.body.flatMap declaratorsOf)

/-! ### Members -/

/-- A kind of member. -/
inductive MemberKind where
  | virtual
  | method
  | static
deriving DecidableEq

/-- The word for a kind of member, which is also the name of the call that adds one. -/
def MemberKind.tag : MemberKind → String
  | virtual => "virtual"
  | method => "method"
  | static => "static"

/-- The object that members of a kind may be assigned into. -/
def MemberKind.collection : MemberKind → String
  | virtual => "virtuals"
  | method => "methods"
  | static => "statics"

/-- The name of the virtual that a chain of calls defines, if one of the calls behind the first one
is `get`. -/
def virtualName? (schema : String) (hasGetter : Bool) : Expr → Option String
  | .call _ _ (.member _ object property) args =>
    if property == "virtual" && object.ident? == some schema then
      if hasGetter then args.head?.bind Expr.string? else none
    else virtualName? schema (hasGetter || property == "get") object
  | _ => none

/-- The names of the operations of a kind that a statement adds to a schema. -/
def operationNames (kind : MemberKind) (schema : String) : Expr → List String
  | .assign _ (.member _ (.member _ owner collection) name) _ =>
    if collection == kind.collection && owner.ident? == some schema then [name] else []
  | .call _ _ (.member _ owner property) args =>
    if property == kind.tag && owner.ident? == some schema then
      match args with
      | .lit _ (.string name) :: _ => [name]
      | .object _ entries :: _ => entries.filterMap Entry.key?
      | _ => []
    else []
  | _ => []

/-- The names of the members of a kind that an expression adds to a schema. -/
def memberNames (kind : MemberKind) (schema : String) (e : Expr) : List String :=
  match kind with
  | .virtual => (virtualName? schema false e).toList
  | kind => operationNames kind schema e

/-- A member as a bullet. -/
def memberBullet (kind : MemberKind) (description name : String) : String :=
  Description.attach ("- **" ++ name ++ "** \x60" ++ kind.tag ++ "\x60") description

/-- The description of a statement: its last comment. -/
def statementDescription (s : Statement) : String :=
  ((s.comments.leading.getLast?).map fun c => Description.clean c.text).getD ""

/-- The bullets of the members of a kind that a statement adds to a schema. -/
def statementMembers (kind : MemberKind) (schema : String) (s : Statement) : List String :=
  match s.kind with
  | .expression e =>
    (memberNames kind schema e).map (memberBullet kind (statementDescription s))
  | _ => []

/-- The bullets of the members of a schema: virtuals, then methods, then statics. -/
def members (program : Program) (schema : String) : List String :=
  [MemberKind.virtual, .method, .static].flatMap fun kind =>
    program.body.flatMap (statementMembers kind schema)

end SchemaDoc.Document
