import SchemaDoc.Program.Names
import SchemaDoc.Resolve.Session
import SchemaDoc.Value.Operators

/-!
# Evaluation

Expressions are evaluated without running any code: literals, names, properties, references to
modules, and calls of helper functions whose bodies are an expression or a list of declarations
with a returned value. Everything else is unknown. The only error is a reference to a file that
could not be loaded.

An expression is evaluated by recursion on it, until a name, a reference or a call leads out of it.
Then evaluation goes on in another context: in the declaration of the name, in the statements of
the module, or in the function. Three things keep the contexts finite: a name that is reached while
it is being resolved is unknown, and so is a module that is reached while its exports are being
evaluated, and helper calls are limited in depth and number. So `Evaluate.step` evaluates a goal
over an evaluator for the goals of the contexts that it enters, and `evaluate` ties the knot with a
bound on how deeply contexts nest; `ModuleIndex.contexts` says how large a bound is enough.
-/

namespace SchemaDoc

/-- What can be evaluated: an expression of a module in a scope, or a name that the module sees
there. -/
inductive Goal where
  | expr (m : ModuleId) (e : Expr) (scope : Scope)
  | name (m : ModuleId) (name : String) (scope : Scope)

/-- A way to evaluate goals. -/
abbrev Evaluator (σ : Type) := Goal → EvalOver σ Value

namespace Evaluate

open Script (ImportBinding BinaryOp)

/-- How deeply helper calls may nest. -/
def callDepthLimit : Nat := 64

/-- How many helper calls there may be. -/
def callLimit : Nat := 10000

variable {σ : Type} [Store σ] (enter : Evaluator σ)

/-! ### Calls of helpers -/

/-- A value, or its default if it is unknown. -/
def orDefault (m : ModuleId) (scope : Scope) (value : Value) : Option Expr → EvalOver σ Value
  | some default => if value.isUnknown then enter (.expr m default scope) else return value
  | none => return value

/-- The value of a property that a pattern reads, or its default if that is unknown. -/
def readProperty (m : ModuleId) (source : Value) (prop : PatternProp) (scope : Scope) :
    EvalOver σ Value :=
  orDefault enter m scope ((source.field? prop.key).getD .unknown) prop.default

/-- Binds the properties of a pattern one after the other. -/
def bindProperties (m : ModuleId) (value : Value) (scope : Scope) :
    List PatternProp → EvalOver σ Unit
  | [] => return
  | prop :: props => do
    Eval.bindName scope prop.name (← readProperty enter m value prop scope)
    bindProperties m value scope props

/-- Binds the names of a binding to a value. -/
def bind (m : ModuleId) (binding : Binding) (value : Value) (scope : Scope) : EvalOver σ Unit :=
  match binding with
  | .ident name => Eval.bindName scope name value
  | .object props => bindProperties enter m value scope props
  | .unsupported => return

/-- Binds the parameters of a function to the arguments of a call. An argument that is missing is
unknown, and an unknown one is replaced by the default. -/
def bindParams (m : ModuleId) (scope : Scope) : List Param → List Value → EvalOver σ Unit
  | [], _ => return
  | param :: params, args => do
    let given := if param.rest then .list args else args.head?.getD .unknown
    bind enter m param.binding (← orDefault enter m scope given param.default) scope
    bindParams m scope params (if param.rest then [] else args.tail)

/-- The value of an initializer; without one it is unknown. -/
def initial (m : ModuleId) (scope : Scope) : Option Expr → EvalOver σ Value
  | some init => enter (.expr m init scope)
  | none => return .unknown

/-- Binds declared variables one after the other. -/
def bindDeclarators (m : ModuleId) (scope : Scope) : List Declarator → EvalOver σ Unit
  | [] => return
  | d :: ds => do
    bind enter m d.binding (← initial enter m scope d.init) scope
    bindDeclarators m scope ds

/-- Runs the statements of a body up to the first one that returns. Control flow is not
followed. -/
def runBody (m : ModuleId) (scope : Scope) : List BodyStatement → EvalOver σ Value
  | [] => return .unknown
  | .declare ds :: ss => do
    bindDeclarators enter m scope ds
    runBody m scope ss
  | .returns e :: _ => initial enter m scope e
  | .other :: _ => return .unknown

/-- Runs a function in a new frame. -/
def runFunction (f : FunctionLit) (m : ModuleId) (outer : Scope) (args : List Value) :
    EvalOver σ Value := do
  let scope ← Eval.newScope outer
  bindParams enter m scope f.params args
  match f.body with
  | .expr e => enter (.expr m e scope)
  | .block statements => runBody enter m scope statements

/-- Runs a function, unless helper calls are nested too deeply. -/
def runNested (f : FunctionLit) (m : ModuleId) (outer : Scope) (args : List Value) :
    EvalOver σ Value := do
  if callDepthLimit ≤ (← Eval.asks (·.callDepth)) then
    Eval.warn "helper calls nested too deeply; result treated as unknown"
    return .unknown
  else Eval.whileCalling (runFunction enter f m outer args)

/-- Calls a helper function. Past one of the limits the result is unknown. -/
def invoke (f : FunctionLit) (m : ModuleId) (outer : Scope) (args : List Value) :
    EvalOver σ Value := do
  if callLimit ≤ (← Eval.asks (·.calls)) then
    Eval.warn "helper call budget exhausted; result treated as unknown"
    return .unknown
  else
    Eval.countCall
    runNested enter f m outer args

/-! ### Declared names -/

/-- The value that a declarator gives one of its names. -/
def declared (m : ModuleId) (d : Declarator) (name : String) : EvalOver σ Value := do
  let init ← initial enter m none d.init
  match d.binding with
  | .ident _ => return init
  | .object props =>
    match props.find? (·.name == name) with
    | some prop => readProperty enter m init prop none
    | none => return .unknown
  | .unsupported => return .unknown

/-- Where a top-level name comes from. -/
inductive Origin where
  | declarator (d : Declarator)
  | imported (source : String) (binding : ImportBinding)

/-- Where a statement takes a name from, if it introduces it. -/
def originIn? (name : String) (s : Statement) : Option Origin :=
  match s.kind with
  | .declare _ ds => (ds.find? (·.binding.binds name)).map .declarator
  | .imports source bindings =>
    (bindings.find? (·.localName == name)).map (.imported source)
  | _ => none

/-- Where a program takes a name from: the first statement that introduces it. -/
def origin? (p : Program) (name : String) : Option Origin := p.body.findSome? (originIn? name)

/-! ### Exports -/

/-- Adds a name to exports that are a mapping. -/
def exportNamed (exports : Value) (name : String) (value : Value) : Value :=
  match exports with
  | .map fields => .map (insertKey name value fields)
  | exports => exports

/-- Where an assignment stores into the exports of its module. -/
inductive ExportTarget where
  | whole
  | named (name : String)
deriving DecidableEq

/-- Whether an expression is `module.exports`. -/
def isModuleExports : Expr → Bool
  | .member _ (.ident _ object) property => object == "module" && property == "exports"
  | _ => false

/-- The place in the exports that an expression names. -/
def exportTarget? (target : Expr) : Option ExportTarget :=
  if isModuleExports target then some .whole
  else
    match target with
    | .member _ object property =>
      if object.ident? == some "exports" || isModuleExports object then some (.named property)
      else none
    | _ => none

/-- The targets of a chain of assignments, and the value that is assigned to all of them. -/
def assignments : Expr → List Expr × Expr
  | .assign _ target value =>
    let (targets, value) := assignments value
    (target :: targets, value)
  | e => ([], e)

/-- Stores a value under targets, the innermost one first. -/
def store (exports : Value) (targets : List ExportTarget) (value : Value) : Value :=
  targets.foldr (fun target exports =>
    match target with
    | .whole => value
    | .named name => exportNamed exports name value) exports

/-- Adds the exported names of declarators to exports; only plain names are exported. -/
def exportDeclarators (m : ModuleId) : Value → List Declarator → EvalOver σ Value
  | exports, [] => return exports
  | exports, d :: ds => do
    match d.binding with
    | .ident name =>
      exportDeclarators m (exportNamed exports name (← declared enter m d name)) ds
    | _ => exportDeclarators m exports ds

/-- Adds names to exports, each under the name it is exported under. -/
def exportNames (m : ModuleId) : Value → List (String × String) → EvalOver σ Value
  | exports, [] => return exports
  | exports, (name, exported) :: names => do
    exportNames m (exportNamed exports exported (← enter (.name m name none))) names

/-- Adds what a statement exports. -/
def exportStatement (m : ModuleId) (exports : Value) (s : Statement) : EvalOver σ Value := do
  match s.kind with
  | .expression e =>
    let targets := (assignments e).1.filterMap exportTarget?
    if targets.isEmpty then return exports
    else return store exports targets (← enter (.expr m (assignments e).2 none))
  | .declare exported ds => if exported then exportDeclarators enter m exports ds else return exports
  | .exportDefault e => return exportNamed exports "default" (← enter (.expr m e none))
  | .exportNames names => exportNames enter m exports names
  | .imports _ _ => return exports
  | .other => return exports

/-- Adds what statements export. -/
def exportStatements (m : ModuleId) : Value → List Statement → EvalOver σ Value
  | exports, [] => return exports
  | exports, s :: ss => do exportStatements m (← exportStatement enter m exports s) ss

/-- Evaluates the exports of a module. -/
def evaluateExports (m : ModuleId) : EvalOver σ Value := do
  match (← Eval.index).module? m with
  | none => return .unknown
  | some sourceModule =>
    match sourceModule.source with
    | .json value => return .ofJson value
    | .script program => exportStatements enter m (.map []) program.body

/-- The exports of a module, which are evaluated once. A module whose exports are being evaluated
has none yet. -/
def exportsOf (m : ModuleId) : EvalOver σ Value := do
  match ← Eval.asks (·.exports.lookup m) with
  | some value => return value
  | none =>
    if ← Eval.asks (·.exporting.contains m) then
      let path := (← Eval.index).path m
      Eval.warn s!"circular require of {path}; treated as unknown"
      return .unknown
    else Eval.remember m (evaluateExports enter m)

/-- The exports of the module that a specifier refers to. -/
def require (m : ModuleId) (specifier : String) : EvalOver σ Value := do
  match (← Eval.index).link? m specifier with
  | none =>
    Eval.warn s!"package '{specifier}' is not analyzed; its exports are unknown"
    return .unknown
  | some (.failed reason) => Eval.fail (.moduleLoad specifier ((← Eval.index).path m) reason)
  | some (.loaded id) => exportsOf enter id

/-! ### Names -/

/-- What an import takes from the exports of a module. -/
def select (exports : Value) : ImportBinding → Value
  | .named imported _ => (exports.field? imported).getD .unknown
  | .default _ => (exports.field? "default").getD exports
  | .whole _ => exports

/-- The value of a top-level name by its origin. -/
def ofOrigin (m : ModuleId) (name : String) : Origin → EvalOver σ Value
  | .declarator d => declared enter m d name
  | .imported source binding => return select (← require enter m source) binding

/-- The value of a name that a program introduces at top level. -/
def introduced? (m : ModuleId) (name : String) (program : Program) : EvalOver σ (Option Value) :=
  match origin? program name with
  | some origin => return some (← ofOrigin enter m name origin)
  | none => return none

/-- A name that a program does not introduce: a global type, or nothing that is known. -/
def global (m : ModuleId) (name : String) : EvalOver σ Value := do
  if (← Eval.config).isBuiltinType name then return .typeLabel name
  else
    let path := (← Eval.index).path m
    Eval.warn s!"{path}: cannot resolve '{name}'"
    return .unknown

/-- A name that is no local one: a top-level one of the module, or a global one. -/
def topLevel (m : ModuleId) (name : String) : EvalOver σ Value := do
  if ← Eval.asks (·.resolving.contains (m, name)) then
    Eval.warn s!"'{name}' refers to itself; treated as unknown"
    return .unknown
  else
    match (← Eval.index).program? m with
    | none => return .unknown
    | some program =>
      match ← Eval.whileResolving (m, name) (introduced? enter m name program) with
      | some value => return value
      | none => global m name

/-- The value of a name that always means the same. -/
def constant? (name : String) : Option Value :=
  if name == "undefined" then some .unknown
  else if name == "NaN" then some (.num Double.nan)
  else if name == "Infinity" then some (.num (Double.infinity false))
  else none

/-- A name. -/
def lookup (m : ModuleId) (name : String) (scope : Scope) : EvalOver σ Value := do
  match ← Eval.local? scope name with
  | some value => return value
  | none =>
    match constant? name with
    | some value => return value
    | none => topLevel enter m name

/-! ### Expressions -/

/-- The value of a literal. -/
def literal : Script.Literal → Value
  | .string s => .str s
  | .number x => .num x
  | .bool b => .bool b
  | .null => .null
  | .bigint digits => .bigint digits

/-- The fields that a list contributes when it is spread into an object. -/
def indexed : Nat → List Value → List (String × Value)
  | _, [] => []
  | i, item :: items => (toString i, item) :: indexed (i + 1) items

/-- Fields with other fields put into them. -/
def merge (fields more : List (String × Value)) : List (String × Value) :=
  more.foldl (fun fields (key, value) => insertKey key value fields) fields

/-- Records a warning about something in a module, with its place in front. -/
def warnAt (m : ModuleId) (loc : Loc) (message : String) : EvalOver σ Unit := do
  let path := (← Eval.index).path m
  Eval.warn s!"{path}:{loc.startLine}: {message}"

/-- The fields of an object literal with what a spread adds to them. -/
def spreadFields (m : ModuleId) (loc : Loc) (fields : List (String × Value)) :
    Value → EvalOver σ (List (String × Value))
  | .map more => return merge fields more
  | .list items => return merge fields (indexed 0 items)
  | .unknown => do
    warnAt m loc "spread of an unresolved value is ignored"
    return fields
  | _ => return fields

/-- The items that an entry contributes to an array. -/
def entryItems (m : ModuleId) (kind : EntryKind) (loc : Loc) (value : Value) :
    EvalOver σ (List Value) :=
  match kind, value with
  | .spread, .list items => return items
  | .spread, _ => do
    warnAt m loc "spread of a non-array value is ignored"
    return []
  | _, value => return [value]

/-- A call, over computations for the function and the arguments. A call of `require` with a literal
refers to a module, unless the name is a local one. -/
def call (m : ModuleId) (scope : Scope) (constructs : Bool) (callee : Expr) (args : List Expr)
    (function : EvalOver σ Value) (values : EvalOver σ (List Value)) : EvalOver σ Value := do
  let isLocal := (← Eval.local? scope "require").isSome
  if !constructs && callee.ident? == some "require" && !isLocal then
    match args.head?.bind Expr.string? with
    | some specifier => require enter m specifier
    | none => return .unknown
  else
    let f ← function
    let args ← values
    match f with
    | .function f fm fscope => invoke enter f fm fscope args
    | .typeLabel name => return .callType name args
    | _ => return .unknown

/-- One of two computations, by what is known about a condition. -/
def choose (condition : Option Bool) (yes no : EvalOver σ Value) : EvalOver σ Value :=
  match condition with
  | some true => yes
  | some false => no
  | none => return .unknown

/-- An operation on two operands. The second one is only evaluated if the first one does not decide
the result. -/
def binary (op : BinaryOp) (left right : EvalOver σ Value) : EvalOver σ Value := do
  let a ← left
  match op with
  | .and => choose a.truthy? right (return a)
  | .or => choose a.truthy? (return a) right
  | .nullish =>
    match a with
    | .null => right
    | .unknown => right
    | a => return a
  | op => return .binary op a (← right)

mutual
/-- An expression. -/
def expression (m : ModuleId) (scope : Scope) : Expr → EvalOver σ Value
  | .lit _ v => return literal v
  | .regex _ pattern flags => return .pattern pattern flags
  | .template _ chunks exprs => template m scope "" chunks exprs
  | .ident _ name => lookup enter m name scope
  | .object _ entries => return .map (← object m scope [] entries)
  | .array _ entries => return .list (← array m scope entries)
  | .call _ constructs callee args =>
    call enter m scope constructs callee args (expression m scope callee) (values m scope args)
  | .member _ e property => return (← expression m scope e).member property
  | .function _ f => return .function f m scope
  | .unary _ op e => return .unary op (← expression m scope e)
  | .binary _ op left right => binary op (expression m scope left) (expression m scope right)
  | .conditional _ test yes no => do
    choose (← expression m scope test).truthy? (expression m scope yes) (expression m scope no)
  | .assign _ _ _ => return .unknown
  | .unmodelled _ _ => return .unknown

/-- The values of expressions, one after the other. -/
def values (m : ModuleId) (scope : Scope) : List Expr → EvalOver σ (List Value)
  | [] => return []
  | e :: es => do
    let value ← expression m scope e
    return value :: (← values m scope es)

/-- The text of a template after what is already known of it. Nothing is evaluated after a value
that has no text. -/
def template (m : ModuleId) (scope : Scope) :
    String → List String → List Expr → EvalOver σ Value
  | done, chunks, [] => return .str (done ++ String.join chunks)
  | done, [], _ :: _ => return .str done
  | done, chunk :: chunks, e :: es => do
    match (← expression m scope e).text? with
    | some text => template m scope (done ++ chunk ++ text) chunks es
    | none => return .unknown

/-- The fields of an object literal, put into those already known. -/
def object (m : ModuleId) (scope : Scope) :
    List (String × Value) → List Entry → EvalOver σ (List (String × Value))
  | fields, [] => return fields
  | fields, .mk (.keyed key) value _ _ :: entries => do
    object m scope (insertKey key (← expression m scope value) fields) entries
  | fields, .mk .spread value loc _ :: entries => do
    object m scope (← spreadFields m loc fields (← expression m scope value)) entries
  | fields, .mk .element _ _ _ :: entries => object m scope fields entries

/-- The items of an array literal. -/
def array (m : ModuleId) (scope : Scope) : List Entry → EvalOver σ (List Value)
  | [] => return []
  | .mk kind value loc _ :: entries => do
    let items ← entryItems m kind loc (← expression m scope value)
    return items ++ (← array m scope entries)
end

/-- One step of evaluation. -/
def step : Goal → EvalOver σ Value
  | .expr m e scope => expression enter m scope e
  | .name m name scope => lookup enter m name scope

end Evaluate

/-- Evaluates a goal with a bound on how deeply contexts nest. -/
def evaluate {σ : Type} [Store σ] : Nat → Evaluator σ
  | 0, _ => throw .exhausted
  | contexts + 1, goal => Evaluate.step (evaluate contexts) goal

/-! ### Enough contexts -/

/-- The names that the modules of an index introduce at top level, each with its module. -/
def ModuleIndex.names (index : ModuleIndex) : List (ModuleId × String) :=
  index.modules.zipIdx.flatMap fun (m, id) =>
    ((m.program?.map Program.names).getD []).map fun name => (id, name)

/-- How many times evaluation can go on to another declaration, to the exports of another module or
into another function before it comes back. -/
def ModuleIndex.contexts (index : ModuleIndex) : Nat :=
  index.names.length + index.modules.length + Evaluate.callDepthLimit

namespace Eval

variable {σ : Type} [Store σ]

/-- Evaluates an expression of a module in a scope. -/
def expr (m : ModuleId) (e : Expr) (scope : Scope) : EvalOver σ Value := do
  evaluate ((← index).contexts + 1) (.expr m e scope)

/-- The value of a name in a module. -/
def lookup (m : ModuleId) (name : String) (scope : Scope) : EvalOver σ Value := do
  evaluate ((← index).contexts + 1) (.name m name scope)

/-- The exports of the module that a specifier refers to. -/
def require (m : ModuleId) (specifier : String) : EvalOver σ Value := do
  Evaluate.require (evaluate (← index).contexts) m specifier

/-- Calls a helper function. -/
def invoke (f : FunctionLit) (m : ModuleId) (scope : Scope) (args : List Value) :
    EvalOver σ Value := do
  Evaluate.invoke (evaluate (← index).contexts) f m scope args

end Eval

end SchemaDoc
