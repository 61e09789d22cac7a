import SchemaDoc.Config.Basic
import SchemaDoc.Frames
import SchemaDoc.ModuleIndex

/-!
# Sessions

Evaluation runs over an index and a configuration that do not change, and a session that does: the
exports that are already known, what is being evaluated at the moment, the frames of the helpers,
and the log. A session outlives an error, since what was learned before it stays true.
-/

namespace SchemaDoc

/-- What evaluation runs over. -/
structure Environment where
  index : ModuleIndex
  config : Config

/-- What evaluation remembers. -/
structure Session where
  /-- The exports of modules that were evaluated. -/
  exports : List (ModuleId × Value)
  /-- The modules whose exports are being evaluated. -/
  exporting : List ModuleId
  /-- The top-level names that are being resolved, the innermost first. -/
  resolving : List (ModuleId × String)
  /-- How deeply helper calls are nested. -/
  callDepth : Nat
  /-- How many helper calls there were. -/
  calls : Nat
  frames : Frames
  log : Log

/-- A session in which nothing has happened. -/
def Session.start (log : Log) : Session :=
  { exports := [], exporting := [], resolving := [], callDepth := 0, calls := 0,
    frames := Frames.empty, log }

/-- Why evaluation stops: an error, or no fuel. -/
inductive Stop where
  | error (e : Error)
  | exhausted
deriving DecidableEq

/-! ### Stores -/

/-- Something that holds a session, and lets it be changed. The program evaluates over a session
itself. A store that keeps more than that sees every change, so that what holds during an evaluation
can be said, and not only what holds after it. -/
class Store (σ : Type) where
  session : σ → Session
  update : (Session → Session) → σ → σ
  session_update : ∀ f s, session (update f s) = f (session s)

instance : Store Session where
  session s := s
  update f s := f s
  session_update _ _ := rfl

/-- A computation over an environment and a store. -/
abbrev EvalOver (σ α : Type) := ReaderT Environment (ExceptT Stop (StateM σ)) α

/-- A computation over an environment and a session. -/
abbrev Eval (α : Type) := EvalOver Session α

namespace Eval

variable {σ α : Type} [Store σ]

/-- Stops with an error. -/
def fail (e : Error) : EvalOver σ α := throw (.error e)

/-- What a question about the session answers. -/
def asks (question : Session → α) : EvalOver σ α := return question (Store.session (← get))

/-- Changes the session. -/
def update (change : Session → Session) : EvalOver σ Unit := modify (Store.update change)

/-- Records a warning. -/
def warn (message : String) : EvalOver σ Unit :=
  update fun s => { s with log := s.log.warn message }

/-- Records a piece of information. -/
def info (message : String) : EvalOver σ Unit :=
  update fun s => { s with log := s.log.info message }

/-- The index. -/
def index : EvalOver σ ModuleIndex := return (← read).index

/-- The configuration. -/
def config : EvalOver σ Config := return (← read).config

/-! ### What is being evaluated -/

/-- Runs a computation between two changes of the session. The second change happens also if the
computation stops. -/
def bracket (enter leave : Session → Session) (x : EvalOver σ α) : EvalOver σ α := fun env s =>
  let (r, s) := x env (Store.update enter s)
  (r, Store.update leave s)

/-- Runs a computation while a name is being resolved. -/
def whileResolving (key : ModuleId × String) (x : EvalOver σ α) : EvalOver σ α :=
  bracket (fun s => { s with resolving := key :: s.resolving })
    (fun s => { s with resolving := s.resolving.tail }) x

/-- Runs a computation while the exports of a module are being evaluated. -/
def whileExporting (m : ModuleId) (x : EvalOver σ α) : EvalOver σ α :=
  bracket (fun s => { s with exporting := m :: s.exporting })
    (fun s => { s with exporting := s.exporting.tail }) x

/-- Runs a computation one helper call deeper. -/
def whileCalling (x : EvalOver σ α) : EvalOver σ α :=
  bracket (fun s => { s with callDepth := s.callDepth + 1 })
    (fun s => { s with callDepth := s.callDepth - 1 }) x

/-- Counts a helper call. -/
def countCall : EvalOver σ Unit := update fun s => { s with calls := s.calls + 1 }

/-- Evaluates the exports of a module, and remembers them unless that stops. -/
def remember (m : ModuleId) (x : EvalOver σ Value) : EvalOver σ Value := do
  let value ← whileExporting m x
  update fun s => { s with exports := (m, value) :: s.exports }
  return value

/-! ### Scopes -/

/-- A new frame inside a scope. -/
def newScope (parent : Scope) : EvalOver σ Scope := do
  let (frames, scope) := (← asks (·.frames)).child parent []
  update fun s => { s with frames }
  return scope

/-- Binds a name in a scope. -/
def bindName (scope : Scope) (name : String) (value : Value) : EvalOver σ Unit :=
  update fun s => { s with frames := s.frames.bind scope name value }

/-- The value that a name is bound to in a scope. -/
def local? (scope : Scope) (name : String) : EvalOver σ (Option Value) :=
  asks (·.frames.lookup? scope name)

end Eval

end SchemaDoc
