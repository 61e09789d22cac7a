import SchemaDoc.Value.Basic

/-!
# Scopes

The local names of helper functions live in frames. A frame knows the scope around it, which is
fixed when the frame is created; its bindings can grow as long as it is used. Frames are kept in a
store and named by their number there, so that every closure created in a scope sees what is bound
in it later.

The scope without a frame is the top level: nothing is bound in it.
-/

namespace SchemaDoc

/-- A frame: its bindings and the scope around it. -/
structure Frame where
  bindings : List (String × Value)
  parent : Scope

/-- All frames created so far. -/
structure Frames where
  frames : Array Frame

namespace Frames

/-- No frames. -/
def empty : Frames := ⟨#[]⟩

/-- A new frame inside a scope. -/
def child (fs : Frames) (parent : Scope) (bindings : List (String × Value)) : Frames × Scope :=
  (⟨fs.frames.push { bindings, parent }⟩, some fs.frames.size)

/-- Binds a name in the innermost frame of a scope; at top level nothing happens. -/
def bind (fs : Frames) (scope : Scope) (name : String) (value : Value) : Frames :=
  match scope with
  | none => fs
  | some id =>
    match fs.frames[id]? with
    | none => fs
    | some frame =>
      ⟨fs.frames.setIfInBounds id
        { frame with bindings := insertKey name value frame.bindings }⟩

/-- The value of a name in a scope, searched through at most `fuel` frames. -/
def lookupWithin (fs : Frames) (name : String) : Nat → Scope → Option Value
  | 0, _ => none
  | _ + 1, none => none
  | fuel + 1, some id =>
    match fs.frames[id]? with
    | none => none
    | some frame =>
      match lookupKey? name frame.bindings with
      | some value => some value
      | none => lookupWithin fs name fuel frame.parent

/-- The value of a name in a scope: the one bound in the nearest frame. Frames are created inside
older ones, so a chain of scopes has no more members than there are frames. -/
def lookup? (fs : Frames) (scope : Scope) (name : String) : Option Value :=
  fs.lookupWithin name fs.frames.size scope

/-- Whether a name is bound in a scope. -/
def contains (fs : Frames) (scope : Scope) (name : String) : Bool :=
  (fs.lookup? scope name).isSome

end Frames

end SchemaDoc
