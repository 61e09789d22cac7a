import SchemaDoc.Proofs.Discipline
import SchemaDoc.Proofs.Nesting

/-!
# Scopes are shared lexical frames

Frames are shared: any number of scopes can be derived from a scope, before and after names are
bound in it, and all of them see what is bound there, unless a nearer frame binds the same name.
This file says so for every use of scopes, from the scope at top level on.

A use of scopes is a `ScopeHistory`: all frames that were opened and all names that were bound, in
their order. What a scope sees is told from the history alone: `latest` is the value that a name was
given last in a frame, and `chain` the frames of a scope, from its own one through those that it was
opened in. The frames in the store record exactly this (`Records`), since each step keeps it
(`Records.child`, `Records.bind`), so a lookup goes by the history (`Records.lookup?`). What a
binding changes is then a matter of two histories, with the binding and without it.
-/

namespace SchemaDoc

/-- A step in the use of scopes. -/
inductive ScopeStep where
  /-- A frame is opened inside a scope, with its first bindings. -/
  | child (scope : Scope) (bindings : List (String × Value))
  /-- A name is bound in a scope. -/
  | bind (scope : Scope) (name : String) (value : Value)

namespace ScopeStep

/-- The scope that a step uses. -/
def scope : ScopeStep → Scope
  | child scope _ => scope
  | bind scope _ _ => scope

/-- The step binds a name in a frame that is there already. -/
def Rebinds (id : Nat) (name : String) : ScopeStep → Prop
  | child _ _ => False
  | bind scope name' _ => scope = some id ∧ name' = name

end ScopeStep

/-- The steps in a use of scopes, the last one first. -/
abbrev ScopeHistory := List ScopeStep

namespace ScopeHistory

/-- The frames that steps leave. -/
def frames : ScopeHistory → Frames
  | [] => .empty
  | .child scope bindings :: earlier => ((frames earlier).child scope bindings).1
  | .bind scope name value :: earlier => (frames earlier).bind scope name value

/-- The number of frames that were opened. They are numbered in their order. -/
def opened : ScopeHistory → Nat
  | [] => 0
  | .child _ _ :: earlier => opened earlier + 1
  | .bind _ _ _ :: earlier => opened earlier

/-- A scope that there is: the one at top level, or that of a frame that was opened. -/
def Has (h : ScopeHistory) (scope : Scope) : Prop := ∀ id ∈ scope, id < opened h

/-- **Steps that can be taken**: each uses a scope that there is when it is taken. -/
def Possible : ScopeHistory → Prop
  | [] => True
  | step :: earlier => Has earlier step.scope ∧ Possible earlier

/-- **The value that a name was given last in a frame**, when the frame was opened or later. -/
def latest : ScopeHistory → Nat → String → Option Value
  | [], _, _ => none
  | .child _ bindings :: earlier, id, name =>
    if id = opened earlier then lookupKey? name bindings else latest earlier id name
  | .bind scope name' value :: earlier, id, name =>
    if scope = some id ∧ name' = name then some value else latest earlier id name

/-- **The frames of a scope**, the nearest one first: its own frame, and the frames of the scope
that this was opened in. -/
def chain : ScopeHistory → Scope → List Nat
  | _, none => []
  | [], some _ => []
  | .child scope _ :: earlier, some id =>
    if id = opened earlier then id :: chain earlier scope else chain earlier (some id)
  | .bind _ _ _ :: earlier, some id => chain earlier (some id)

/-- The scope sees what is bound to a name in a frame: the frame is one of its frames, and no nearer
one binds the name. -/
def Sees (h : ScopeHistory) (scope : Scope) (id : Nat) (name : String) : Prop :=
  ∃ nearer farther, chain h scope = nearer ++ id :: farther ∧ ∀ j ∈ nearer, latest h j name = none

/-! ### Chains -/

theorem chain_none (h : ScopeHistory) : chain h none = [] := by
  cases h <;> rfl

theorem chain_bind (scope : Scope) (name : String) (value : Value) (h : ScopeHistory)
    (scope' : Scope) : chain (.bind scope name value :: h) scope' = chain h scope' := by
  cases scope' with
  | none => rw [chain_none, chain_none]
  | some id => rfl

/-- A new frame is in no chain that there was. -/
theorem chain_child {h : ScopeHistory} {scope : Scope} (hscope : Has h scope) (parent : Scope)
    (bindings : List (String × Value)) :
    chain (.child parent bindings :: h) scope = chain h scope := by
  cases scope with
  | none => rw [chain_none, chain_none]
  | some id => exact if_neg (Nat.ne_of_lt (hscope id rfl))

theorem chain_eq_nil {h : ScopeHistory} {id : Nat} (hid : opened h ≤ id) :
    chain h (some id) = [] := by
  induction h with
  | nil => rfl
  | cons step h ih =>
    cases step with
    | child scope bindings =>
      have hid : opened h < id := hid
      exact (if_neg (Nat.ne_of_gt hid)).trans (ih (Nat.le_of_lt hid))
    | bind scope name value => exact ih hid

/-! ### The store records the history -/

/-- **A frame is recorded**: it binds the names to what they were given last in it, and is inside
the scope where its chain goes on, which is older. -/
structure Recorded (h : ScopeHistory) (id : Nat) (frame : Frame) : Prop where
  bound : ∀ name, lookupKey? name frame.bindings = latest h id name
  inside : chain h (some id) = id :: chain h frame.parent
  older : ∀ parent ∈ frame.parent, parent < id

namespace Recorded

variable {h : ScopeHistory} {id : Nat} {frame : Frame}

theorem opened {scope : Scope} (hscope : Has h scope) (bindings : List (String × Value)) :
    Recorded (.child scope bindings :: h) h.opened { bindings, parent := scope } where
  bound name := (if_pos rfl).symm
  inside := by
    rw [chain_child hscope]
    exact if_pos rfl
  older := hscope

/-- Opening another frame changes nothing in a frame. -/
theorem child (hf : Recorded h id frame) (hid : id < h.opened) (scope : Scope)
    (bindings : List (String × Value)) : Recorded (.child scope bindings :: h) id frame where
  bound name := (hf.bound name).trans (if_neg (Nat.ne_of_lt hid)).symm
  inside := by
    have hparent : Has h frame.parent := fun parent hp => Nat.lt_trans (hf.older parent hp) hid
    rw [chain_child hparent]
    exact (if_neg (Nat.ne_of_lt hid)).trans hf.inside
  older := hf.older

/-- Binding a name in another frame changes nothing in a frame. -/
theorem bind_of_ne (hf : Recorded h id frame) {scope : Scope} (hne : scope ≠ some id)
    (name : String) (value : Value) : Recorded (.bind scope name value :: h) id frame where
  bound name' := (hf.bound name').trans (if_neg fun he => hne he.1).symm
  inside := by
    rw [chain_bind, chain_bind]
    exact hf.inside
  older := hf.older

theorem bind_self (hf : Recorded h id frame) (name : String) (value : Value) :
    Recorded (.bind (some id) name value :: h) id
      { frame with bindings := insertKey name value frame.bindings } where
  bound name' := by
    rw [Document.lookupKey?_insertKey, latest, hf.bound]
    simp only [true_and]
  inside := by
    rw [chain_bind, chain_bind]
    exact hf.inside
  older := hf.older

end Recorded

/-- **The frames record a history**: there are as many as were opened, and each is recorded. -/
structure Records (h : ScopeHistory) (fs : Frames) : Prop where
  size : fs.frames.size = opened h
  frame : ∀ (id : Nat) (frame : Frame), fs.frames[id]? = some frame → Recorded h id frame

namespace Records

variable {h : ScopeHistory} {fs : Frames}

theorem empty : Records [] .empty := ⟨rfl, nofun⟩

/-- **Opening a frame.** -/
theorem child (hr : Records h fs) {scope : Scope} (hscope : Has h scope)
    (bindings : List (String × Value)) :
    Records (.child scope bindings :: h) (fs.child scope bindings).1 := by
  refine ⟨by rw [Frames.child, Array.size_push, hr.size, opened], fun id frame hframe => ?_⟩
  rw [Frames.child, Array.getElem?_push] at hframe
  split at hframe
  next hid =>
    obtain rfl := Option.some.inj hframe
    rw [hid, hr.size]
    exact .opened hscope bindings
  next =>
    have hid := (Array.getElem?_eq_some_iff.mp hframe).1
    exact (hr.frame id frame hframe).child (hr.size ▸ hid) scope bindings

/-- **Binding a name.** -/
theorem bind (hr : Records h fs) (scope : Scope) (name : String) (value : Value) :
    Records (.bind scope name value :: h) (fs.bind scope name value) := by
  refine ⟨(Frames.size_bind ..).trans hr.size, fun id frame hframe => ?_⟩
  by_cases hscope : scope = some id
  · obtain rfl := hscope
    rw [Frames.getElem?_bind_self] at hframe
    obtain ⟨old, hold, rfl⟩ := Option.map_eq_some_iff.mp hframe
    exact (hr.frame id old hold).bind_self name value
  · have hsame : (fs.bind scope name value).frames[id]? = fs.frames[id]? := by
      cases scope with
      | none => rfl
      | some other =>
        exact Frames.getElem?_bind_of_ne (fun he => hscope (congrArg some he)) name value
    exact (hr.frame id frame (hsame ▸ hframe)).bind_of_ne hscope name value

/-- The search in a store that records a history goes through the chain of the scope. -/
theorem lookupWithin (hr : Records h fs) (name : String) {fuel : Nat} {scope : Scope}
    (hfuel : ∀ id ∈ scope, id < fuel) :
    fs.lookupWithin name fuel scope = (chain h scope).findSome? (latest h · name) := by
  induction fuel generalizing scope with
  | zero =>
    cases scope with
    | none => rw [chain_none]; rfl
    | some id => exact absurd (hfuel id rfl) (Nat.not_lt_zero id)
  | succ fuel ih =>
    cases scope with
    | none => rw [chain_none]; rfl
    | some id =>
      rw [Frames.lookupWithin]
      cases hframe : fs.frames[id]? with
      | none =>
        have hid : opened h ≤ id := hr.size ▸ Array.getElem?_eq_none_iff.mp hframe
        rw [chain_eq_nil hid]
        rfl
      | some frame =>
        have hf := hr.frame id frame hframe
        -- Frames get older on the way, so that the bound is never reached.
        have hparent := ih fun parent hp =>
          Nat.lt_of_lt_of_le (hf.older parent hp) (Nat.le_of_lt_succ (hfuel id rfl))
        dsimp only
        rw [hf.inside, List.findSome?_cons, hf.bound, hparent]
        cases latest h id name <;> rfl

/-- **Lookup goes by the history**, in every scope. -/
theorem lookup? (hr : Records h fs) (scope : Scope) (name : String) :
    fs.lookup? scope name = (chain h scope).findSome? (latest h · name) := by
  rw [Frames.lookup?]
  cases scope with
  | none => exact hr.lookupWithin name nofun
  | some id =>
    rcases Nat.lt_or_ge id fs.frames.size with hid | hid
    · exact hr.lookupWithin name fun id' he => Option.some.inj he ▸ hid
    · have hnone : fs.frames[id]? = none := Array.getElem?_eq_none_iff.mpr hid
      rw [chain_eq_nil (hr.size ▸ hid)]
      generalize fs.frames.size = fuel
      cases fuel with
      | zero => rfl
      | succ fuel =>
        rw [Frames.lookupWithin, hnone]
        rfl

end Records

/-- **Every possible use of scopes is recorded.** -/
theorem records_frames {h : ScopeHistory} (hpossible : Possible h) : Records h (frames h) := by
  induction h with
  | nil => exact .empty
  | cons step h ih =>
    cases step with
    | child scope bindings => exact (ih hpossible.2).child hpossible.1 bindings
    | bind scope name value => exact (ih hpossible.2).bind scope name value

/-! ### What a binding changes -/

section Bind

variable (later earlier : ScopeHistory) (id : Nat) (name : String) (value : Value)

theorem opened_append_bind (scope : Scope) :
    opened (later ++ .bind scope name value :: earlier) = opened (later ++ earlier) := by
  induction later with
  | nil => rfl
  | cons step later ih =>
    cases step with
    | child parent bindings => exact congrArg (· + 1) ih
    | bind scope' name' value' => exact ih

/-- Binding a name changes no chain. -/
theorem chain_append_bind (scope scope' : Scope) :
    chain (later ++ .bind scope name value :: earlier) scope' =
      chain (later ++ earlier) scope' := by
  induction later generalizing scope' with
  | nil => exact chain_bind scope name value earlier scope'
  | cons step later ih =>
    cases step with
    | child parent bindings =>
      cases scope' with
      | none => rw [chain_none, chain_none]
      | some id =>
        rw [List.cons_append, List.cons_append, chain, chain, opened_append_bind, ih, ih]
    | bind other name' value' => rw [List.cons_append, List.cons_append, chain_bind, chain_bind, ih]

/-- Binding a name changes only what was given to it in that frame, and not even that once it is
bound there again. -/
theorem latest_append_bind_of_not {id' : Nat} {name' : String}
    (h : ¬(id' = id ∧ name' = name ∧ ∀ step ∈ later, ¬step.Rebinds id name)) :
    latest (later ++ .bind (some id) name value :: earlier) id' name' =
      latest (later ++ earlier) id' name' := by
  induction later with
  | nil =>
    exact if_neg fun he => h ⟨(Option.some.inj he.1).symm, he.2.symm, nofun⟩
  | cons step later ih =>
    rw [List.cons_append, List.cons_append]
    cases step with
    | child parent bindings =>
      rw [latest, latest, opened_append_bind, ih]
      rintro ⟨rfl, rfl, hlater⟩
      exact h ⟨rfl, rfl, List.forall_mem_cons.mpr ⟨not_false, hlater⟩⟩
    | bind scope bound value' =>
      rw [latest, latest]
      split
      next => rfl
      next hother =>
        refine ih ?_
        rintro ⟨rfl, rfl, hlater⟩
        exact h ⟨rfl, rfl, List.forall_mem_cons.mpr ⟨hother, hlater⟩⟩

theorem opened_le_append : opened earlier ≤ opened (later ++ earlier) := by
  induction later with
  | nil => exact Nat.le_refl _
  | cons step later ih =>
    cases step with
    | child parent bindings => exact Nat.le_succ_of_le ih
    | bind scope name' value' => exact ih

/-- A name keeps what it was given until it is bound again. -/
theorem latest_append_bind (hid : id < opened earlier)
    (h : ∀ step ∈ later, ¬step.Rebinds id name) :
    latest (later ++ .bind (some id) name value :: earlier) id name = some value := by
  induction later with
  | nil => exact if_pos ⟨rfl, rfl⟩
  | cons step later ih =>
    obtain ⟨hstep, hlater⟩ := List.forall_mem_cons.mp h
    rw [List.cons_append]
    cases step with
    | child parent bindings =>
      have hold : id < opened (later ++ .bind (some id) name value :: earlier) :=
        Nat.lt_of_lt_of_le hid (opened_le_append later (.bind (some id) name value :: earlier))
      rw [latest, if_neg (Nat.ne_of_lt hold), ih hlater]
    | bind scope bound value' => exact (if_neg hstep).trans (ih hlater)

end Bind

/-- Steps can be taken without a binding among them. -/
theorem possible_of_append_bind {later earlier : ScopeHistory} {scope : Scope} {name : String}
    {value : Value} (h : Possible (later ++ .bind scope name value :: earlier)) :
    Has earlier scope ∧ Possible (later ++ earlier) := by
  induction later with
  | nil => exact h
  | cons step later ih =>
    rw [List.cons_append, Possible, Has, opened_append_bind] at h
    obtain ⟨hscope, hrest⟩ := ih h.2
    exact ⟨hscope, h.1, hrest⟩

theorem frames_append_bind_none (later earlier : ScopeHistory) (name : String) (value : Value) :
    frames (later ++ .bind none name value :: earlier) = frames (later ++ earlier) := by
  induction later with
  | nil => rfl
  | cons step later ih =>
    rw [List.cons_append, List.cons_append]
    cases step <;> rw [frames, frames, ih]

/-! ### What a scope sees -/

/-- A search that does not come to `a` does not depend on what is found there. -/
theorem findSome?_congr_of_not_reached {α β : Type} {f g : α → Option β} {a : α} {l : List α}
    (hother : ∀ b, b ≠ a → f b = g b)
    (hreached : ¬∃ nearer farther, l = nearer ++ a :: farther ∧ ∀ b ∈ nearer, f b = none) :
    l.findSome? f = l.findSome? g := by
  induction l with
  | nil => rfl
  | cons b l ih =>
    have hne : b ≠ a := by
      rintro rfl
      exact hreached ⟨[], l, rfl, nofun⟩
    rw [List.findSome?_cons, List.findSome?_cons, ← hother b hne]
    cases hb : f b with
    | some value => rfl
    | none =>
      refine ih ?_
      rintro ⟨nearer, farther, rfl, hnearer⟩
      exact hreached ⟨b :: nearer, farther, rfl, List.forall_mem_cons.mpr ⟨hb, hnearer⟩⟩

theorem Sees.findSome? {h : ScopeHistory} {scope : Scope} {id : Nat} {name : String} {value : Value}
    (hsees : Sees h scope id name) (hvalue : latest h id name = some value) :
    (chain h scope).findSome? (latest h · name) = some value := by
  obtain ⟨nearer, farther, hchain, hnearer⟩ := hsees
  rw [hchain, List.findSome?_append, List.findSome?_eq_none_iff.mpr hnearer,
    List.findSome?_cons, hvalue]
  rfl

/-- **Scopes are shared lexical frames.** After any steps that can be taken from the scope at top
level,

* a name has, in every scope, the value that it was given last in the nearest frame of the scope
  where it was given one, and no value if there is no such frame; a scope contains the names that
  have one;
* a frame that is opened next has the next number;
* a binding at top level changed nothing;
* a binding in a frame is seen by the scopes that have this frame and no nearer one that binds the
  name, as long as the name is not bound there again; in all other scopes, and for all other names,
  everything is as if the name had not been bound. -/
theorem scopes_are_shared_lexical_frames {h : ScopeHistory} (hpossible : Possible h) :
    (∀ scope name,
      (frames h).lookup? scope name = (chain h scope).findSome? (latest h · name) ∧
      ((frames h).contains scope name = true ↔
        ∃ value, (frames h).lookup? scope name = some value)) ∧
    (∀ scope bindings, ((frames h).child scope bindings).2 = some (opened h)) ∧
    (∀ later earlier name value, h = later ++ .bind none name value :: earlier →
      frames h = frames (later ++ earlier)) ∧
    (∀ later earlier id name value, h = later ++ .bind (some id) name value :: earlier →
      ∀ scope,
        ((∀ step ∈ later, ¬step.Rebinds id name) → Sees h scope id name →
          (frames h).lookup? scope name = some value) ∧
        ∀ name', ¬(name' = name ∧ (∀ step ∈ later, ¬step.Rebinds id name) ∧ Sees h scope id name) →
          (frames h).lookup? scope name' = (frames (later ++ earlier)).lookup? scope name') := by
  have hr := records_frames hpossible
  refine ⟨fun scope name => ⟨hr.lookup? scope name, Option.isSome_iff_exists⟩,
    fun scope bindings => congrArg some hr.size, ?_, ?_⟩
  · rintro later earlier name value rfl
    exact frames_append_bind_none later earlier name value
  · rintro later earlier id name value rfl scope
    obtain ⟨hid, hwithout⟩ := possible_of_append_bind hpossible
    refine ⟨fun hlater hsees => ?_, fun name' hnot => ?_⟩
    · rw [hr.lookup?]
      exact hsees.findSome? (latest_append_bind later earlier id name value (hid id rfl) hlater)
    · rw [hr.lookup?, (records_frames hwithout).lookup?,
        ← chain_append_bind later earlier name value (some id)]
      by_cases hsame : name' = name ∧ ∀ step ∈ later, ¬step.Rebinds id name
      · obtain ⟨rfl, hlater⟩ := hsame
        refine findSome?_congr_of_not_reached (fun other hne => ?_) fun hsees =>
          hnot ⟨rfl, hlater, hsees⟩
        exact latest_append_bind_of_not later earlier id name' value fun h => hne h.1
      · have hlatest (other : Nat) :
            latest (later ++ .bind (some id) name value :: earlier) other name' =
              latest (later ++ earlier) other name' :=
          latest_append_bind_of_not later earlier id name value fun h => hsame h.2
        simp only [hlatest]

/-- Two frames are opened in a third one, and then a name is bound in that one. The scope of the
first of the two sees it, and the scope of the second, which binds the name itself, does not. -/
theorem bound_in_shared_frame :
    let h : ScopeHistory := [.bind (some 0) "a" (.bool true), .child (some 0) [("a", .null)],
      .child (some 0) [], .child none [("a", .bool false)]]
    Possible h ∧ (frames h).lookup? (some 1) "a" = some (.bool true) ∧
      (frames h).lookup? (some 2) "a" = some .null := by
  intro h
  have hpossible : Possible h := by simp [h, Possible, Has, ScopeStep.scope, opened]
  obtain ⟨hlookup, -, -, hbind⟩ := scopes_are_shared_lexical_frames hpossible
  refine ⟨hpossible, ?_, (hlookup (some 2) "a").1.trans rfl⟩
  exact (hbind [] _ 0 "a" _ rfl (some 1)).1 nofun ⟨[1], [], rfl, List.forall_mem_singleton.mpr rfl⟩

end ScopeHistory

end SchemaDoc
