import SchemaDoc.Proofs.Indexing
import SchemaDoc.Proofs.Runs

/-!
# Which references are collected

The references of a file are looked for twice. Before anything is evaluated they are collected from
the syntax tree, and the files that they lead to are loaded; later the evaluator meets them again,
as calls in the program that the tree was turned into. A reference that is met and was not collected
has no link, and is taken for one to a package.

The two do not agree. A program knows nothing of parentheses and type annotations, and a string that
is no text is an empty one there. In the tree they are all kept, and a call is collected only if its
callee and its argument are written plainly. A reference that shows only in the program is
**hidden** (`Script.Call.hidden?`). This file says that nothing else is missed: what a program asks
for (`Program.specifiers`) is collected or hidden, and all that is hidden is asked for.

The proof compares three traversals. That of the tree lists the calls that the program keeps
(`Script.Expr.calls`); the one of the program finds the specifiers of these calls, seen without what
is around them; and the collector finds the ones that are written plainly among them.
-/

namespace SchemaDoc

open Script (Element Key Property)

/-! ### What a program asks for -/

/-- The specifier of a call that refers to a module: a call of `require` with a string. -/
def specifier? (callee : Expr) (args : List Expr) : Option String :=
  if callee.ident? == some "require" then args.head?.bind Expr.string? else none

mutual
/-- The specifiers that an expression asks for, wherever they stand in it. -/
def Expr.specifiers : Expr → List String
  | .lit _ _ => []
  | .regex _ _ _ => []
  | .template _ _ exprs => exprSpecifiers exprs
  | .ident _ _ => []
  | .object _ entries => entrySpecifiers entries
  | .array _ entries => entrySpecifiers entries
  | .call _ constructs callee args =>
    (if constructs then [] else (specifier? callee args).toList) ++ callee.specifiers ++
      exprSpecifiers args
  | .member _ object _ => object.specifiers
  | .function _ f => f.specifiers
  | .assign _ target value => target.specifiers ++ value.specifiers
  | .unary _ _ arg => arg.specifiers
  | .binary _ _ left right => left.specifiers ++ right.specifiers
  | .conditional _ test yes no => test.specifiers ++ yes.specifiers ++ no.specifiers
  | .unmodelled _ _ => []

/-- The specifiers that expressions ask for. -/
def exprSpecifiers : List Expr → List String
  | [] => []
  | e :: es => e.specifiers ++ exprSpecifiers es

/-- The specifiers that the entries of a literal ask for. -/
def entrySpecifiers : List Entry → List String
  | [] => []
  | .mk _ e _ _ :: entries => e.specifiers ++ entrySpecifiers entries

/-- The specifiers that a function asks for. -/
def FunctionLit.specifiers : FunctionLit → List String
  | .mk _ params body => paramSpecifiers params ++ body.specifiers

/-- The specifiers that parameters ask for. -/
def paramSpecifiers : List Param → List String
  | [] => []
  | .mk binding default _ :: params =>
    binding.specifiers ++ optionSpecifiers default ++ paramSpecifiers params

/-- The specifiers that a binding asks for. -/
def Binding.specifiers : Binding → List String
  | .ident _ => []
  | .object properties => propertySpecifiers properties
  | .unsupported => []

/-- The specifiers that the properties of a pattern ask for. -/
def propertySpecifiers : List PatternProp → List String
  | [] => []
  | .mk _ _ default :: properties => optionSpecifiers default ++ propertySpecifiers properties

/-- The specifiers that an expression that may be missing asks for. -/
def optionSpecifiers : Option Expr → List String
  | none => []
  | some e => e.specifiers

/-- The specifiers that the body of a function asks for. -/
def FunctionBody.specifiers : FunctionBody → List String
  | .expr value => value.specifiers
  | .block statements => bodySpecifiers statements

/-- The specifiers that the statements of a body ask for. -/
def bodySpecifiers : List BodyStatement → List String
  | [] => []
  | .declare ds :: ss => declaratorSpecifiers ds ++ bodySpecifiers ss
  | .returns e :: ss => optionSpecifiers e ++ bodySpecifiers ss
  | .other :: ss => bodySpecifiers ss

/-- The specifiers that declarators ask for. -/
def declaratorSpecifiers : List Declarator → List String
  | [] => []
  | .mk binding init :: ds => binding.specifiers ++ optionSpecifiers init ++ declaratorSpecifiers ds
end

/-- The specifiers that a statement asks for: those of its calls, and the source of an import. -/
def Statement.specifiers (s : Statement) : List String :=
  match s.kind with
  | .declare _ ds => declaratorSpecifiers ds
  | .expression e => e.specifiers
  | .imports source _ => [source]
  | .exportDefault e => e.specifiers
  | .exportNames _ => []
  | .other => []

/-- **The specifiers that a program asks for.** -/
def Program.specifiers (p : Program) : List String := p.body.flatMap Statement.specifiers

/-! ### The calls of a tree -/

namespace Script

/-- A call as it is written. -/
structure Call where
  callee : Expr
  args : List Element

namespace Call

/-- The text of a string; it is empty if the string is no text. -/
def text? : Expr → Option String
  | .string _ value => some (value.getD "")
  | .literal _ (.string s) => some s
  | _ => none

/-- The specifier of a call that refers to a module, whatever is around its callee and its
argument. -/
def specifier? (c : Call) : Option String :=
  match c.callee.unwrapped, c.args with
  | .ident _ name, .plain e :: _ => if name == requireName then text? e.unwrapped else none
  | _, _ => none

/-- Whether a call has a name for its callee and a text for its first argument, with nothing around
them. -/
def isPlain (c : Call) : Bool :=
  match c.callee, c.args with
  | .ident _ _, .plain (.string _ (some _)) :: _ => true
  | _, _ => false

/-- The specifier of a call that refers to a module and is not written plainly. -/
def hidden? (c : Call) : Option String := if c.isPlain then none else c.specifier?

end Call

mutual
/-- The calls in the parts of an expression that a program keeps; a construction is no call. -/
def Expr.calls : Expr → List Call
  | .string _ _ => []
  | .literal _ _ => []
  | .regex _ _ _ => []
  | .template _ _ exprs => exprCalls exprs
  | .ident _ _ => []
  | .object _ members => memberCalls members
  | .array _ elements => elementCalls elements
  | .call _ constructs callee args _ =>
    (if constructs then [] else [⟨callee, args⟩]) ++ callee.calls ++ argumentCalls args
  | .member _ object property => if (Layout.propertyName? property).isSome then object.calls else []
  | .function _ _ params body _ => paramCalls params ++ body.calls
  | .arrow _ params body _ => paramCalls params ++ body.calls
  | .assign _ target value => if Layout.isAssignable target then target.calls ++ value.calls else []
  | .destructure _ _ _ => []
  | .unary _ _ arg => arg.calls
  | .binary _ _ left right => left.calls ++ right.calls
  | .conditional _ test yes no => test.calls ++ yes.calls ++ no.calls
  | .wrapped _ _ inner _ => inner.calls
  | .other _ _ _ => []

/-- The calls in expressions. -/
def exprCalls : List Expr → List Call
  | [] => []
  | e :: es => e.calls ++ exprCalls es

/-- The calls in the arguments of a call; a program does not keep what is spread there. -/
def argumentCalls : List Element → List Call
  | [] => []
  | .plain e :: es => e.calls ++ argumentCalls es
  | .spread _ _ :: es => argumentCalls es

/-- The calls in the elements of an array. -/
def elementCalls : List Element → List Call
  | [] => []
  | .plain e :: es => e.calls ++ elementCalls es
  | .spread _ e :: es => e.calls ++ elementCalls es

/-- The calls in a member of an object. -/
def Member.calls : Member → List Call
  | .keyed _ _ value => value.calls
  | .shorthand _ _ => []
  | .defaulted _ _ _ => []
  | .method _ _ params body _ => paramCalls params ++ body.calls
  | .accessor _ _ _ _ => []
  | .spread _ value => value.calls

/-- The calls in the members of an object. -/
def memberCalls : List Member → List Call
  | [] => []
  | m :: ms => m.calls ++ memberCalls ms

/-- The calls in an expression that may be missing. -/
def optionCalls : Option Expr → List Call
  | none => []
  | some e => e.calls

/-- The calls in a pattern. -/
def Pattern.calls : Pattern → List Call
  | .ident _ => []
  | .object properties => propertyCalls properties
  | .other _ => []

/-- The calls in the properties of a pattern. -/
def propertyCalls : List PatternProperty → List Call
  | [] => []
  | .bind _ _ default :: ps => optionCalls default ++ propertyCalls ps
  | .other _ :: ps => propertyCalls ps

/-- The calls in parameters. -/
def paramCalls : List Param → List Call
  | [] => []
  | .mk pattern _ default _ :: ps => pattern.calls ++ optionCalls default ++ paramCalls ps

/-- The calls in the body of a function. -/
def Body.calls : Body → List Call
  | .expr value => value.calls
  | .block statements => statementCalls statements

/-- The calls in the statements of a body. -/
def statementCalls : List Statement → List Call
  | [] => []
  | .declare ds :: ss => declaratorCalls ds ++ statementCalls ss
  | .returns e :: ss => optionCalls e ++ statementCalls ss
  | .expression _ :: ss => statementCalls ss
  | .other _ :: ss => statementCalls ss

/-- The calls in declarators. -/
def declaratorCalls : List Declarator → List Call
  | [] => []
  | .mk pattern _ init :: ds => pattern.calls ++ optionCalls init ++ declaratorCalls ds
end

/-- The calls in a top-level item. -/
def Item.calls (item : Item) : List Call :=
  match item.kind with
  | .statement (.declare ds) => declaratorCalls ds
  | .statement (.expression e) => e.calls
  | .exported ds => declaratorCalls ds
  | .exportDefault e => e.calls
  | _ => []

/-- The references of a top-level item that are hidden: those of calls that are not written plainly,
and an import whose source is no text. -/
def Item.hidden (item : Item) : References :=
  match item.kind with
  | .imports none _ => [""]
  | _ => item.calls.filterMap Call.hidden?

/-- **The hidden references of a file.** -/
def File.hidden (file : File) : References := file.items.flatMap Item.hidden

end Script

/-! ### From trees to programs -/

namespace Script.Expr

theorem unwrapped_ne_wrapped (e : Expr) (span : Span) (wrapper : Wrapper) (inner : Expr)
    (types : References) : e.unwrapped ≠ .wrapped span wrapper inner types := by
  fun_induction unwrapped e with
  | case1 _ _ inner _ ih => exact ih
  | case2 e hnot => exact fun h => hnot _ _ _ _ h

end Script.Expr

namespace Layout

variable (l : Layout)

theorem exprAt_unwrapped (loc : Loc) (e : Script.Expr) :
    l.exprAt loc e.unwrapped = l.exprAt loc e := by
  fun_induction Script.Expr.unwrapped e with
  | case1 span wrapper inner types ih => rw [ih, exprAt]
  | case2 e _ => rfl

theorem ident?_exprAt (loc : Loc) (e : Script.Expr) :
    (l.exprAt loc e).ident? = match e.unwrapped with
      | .ident _ name => some name
      | _ => none := by
  have hnot := e.unwrapped_ne_wrapped
  rw [← exprAt_unwrapped]
  generalize e.unwrapped = e at hnot
  cases e with
  | wrapped => exact absurd rfl (hnot _ _ _ _)
  | member _ object property => rw [exprAt]; split <;> rfl
  | assign _ target value => rw [exprAt]; split <;> rfl
  | _ => rw [exprAt]; rfl

theorem string?_exprAt (loc : Loc) (e : Script.Expr) :
    (l.exprAt loc e).string? = Script.Call.text? e.unwrapped := by
  have hnot := e.unwrapped_ne_wrapped
  rw [← exprAt_unwrapped]
  generalize e.unwrapped = e at hnot
  cases e with
  | wrapped => exact absurd rfl (hnot _ _ _ _)
  | member _ object property => rw [exprAt]; split <;> rfl
  | assign _ target value => rw [exprAt]; split <;> rfl
  | literal _ value => cases value <;> rfl
  | _ => rw [exprAt]; rfl

/-- A call in the program asks for what the call in the tree refers to. -/
theorem specifier?_lowered (loc : Loc) (c : Script.Call) :
    specifier? (l.exprAt loc c.callee) (l.arguments c.args) = c.specifier? := by
  rw [specifier?, ident?_exprAt, Script.Call.specifier?]
  cases c.callee.unwrapped with
  | ident _ name =>
    rcases c.args with _ | ⟨e | ⟨lo, e⟩, es⟩
    · simp [arguments]
    · simp only [arguments, List.head?_cons, Option.bind_some, string?_exprAt]
      rfl
    · simp only [arguments, List.head?_cons, Option.bind_some]
      split <;> rfl
  | _ => simp

theorem entrySpecifiers_attachLeading (lo : Nat) (entries : List Entry) :
    entrySpecifiers (l.attachLeading lo entries) = entrySpecifiers entries := by
  induction entries generalizing lo with
  | nil => rfl
  | cons entry entries ih =>
    obtain ⟨kind, e, loc, comments⟩ := entry
    rw [attachLeading, Entry.withComments, entrySpecifiers, entrySpecifiers, ih]
    rfl

theorem entrySpecifiers_attachTrailing (hi : Nat) (entries : List Entry) :
    entrySpecifiers (l.attachTrailing hi entries) = entrySpecifiers entries := by
  fun_induction attachTrailing l hi entries with
  | case1 => rfl
  | case2 entry =>
    obtain ⟨kind, e, loc, comments⟩ := entry
    rfl
  | case3 entry entries _ ih =>
    obtain ⟨kind, e, loc, comments⟩ := entry
    rw [entrySpecifiers, entrySpecifiers, ih]

/-- Comments have nothing to do with it. -/
theorem entrySpecifiers_attach (loc : Loc) (entries : List Entry) :
    entrySpecifiers (l.attach loc entries) = entrySpecifiers entries := by
  rw [attach, entrySpecifiers_attachTrailing, entrySpecifiers_attachLeading]

/-- Specifiers that are met in two places, one after the other. -/
theorem append_met {met met' : List String} {calls calls' : List Script.Call}
    (h : met = calls.filterMap Script.Call.specifier?)
    (h' : met' = calls'.filterMap Script.Call.specifier?) :
    met ++ met' = (calls ++ calls').filterMap Script.Call.specifier? := by
  rw [h, h', List.filterMap_append]

theorem call_met (loc : Loc) (constructs : Bool) (callee : Script.Expr)
    (args : List Script.Element) :
    (if constructs then [] else
      (specifier? (l.exprAt loc callee) (l.arguments args)).toList) =
      (if constructs then [] else [⟨callee, args⟩]).filterMap Script.Call.specifier? := by
  cases constructs with
  | true => rfl
  | false =>
    have hcall := l.specifier?_lowered loc ⟨callee, args⟩
    simp only [Bool.false_eq_true, if_false, List.filterMap_cons, List.filterMap_nil, hcall]
    cases Script.Call.specifier? ⟨callee, args⟩ <;> rfl

-- The recursion is that of the trees, one case for every part of an expression that is kept.
mutual
theorem specifiers_exprAt (loc : Loc) : (e : Script.Expr) →
    (l.exprAt loc e).specifiers = e.calls.filterMap Script.Call.specifier?
  | .string _ _ => rfl
  | .literal _ _ => rfl
  | .regex _ _ _ => rfl
  | .template _ _ es => exprSpecifiers_exprs es
  | .ident _ _ => rfl
  | .object _ ms => (l.entrySpecifiers_attach loc _).trans (entrySpecifiers_members ms)
  | .array _ es => (l.entrySpecifiers_attach loc _).trans (entrySpecifiers_elements es)
  | .call _ constructs callee args _ =>
    append_met (append_met (l.call_met _ constructs callee args) (specifiers_exprAt _ callee))
      (exprSpecifiers_arguments args)
  | .member _ object property => by
    rw [exprAt, Script.Expr.calls]
    cases propertyName? property with
    | none => rfl
    | some name => exact specifiers_exprAt _ object
  | .function _ _ ps b _ => append_met (paramSpecifiers_params ps) (specifiers_body b)
  | .arrow _ ps b _ => append_met (paramSpecifiers_params ps) (specifiers_body b)
  | .assign _ target value => by
    rw [exprAt, Script.Expr.calls]
    split
    · exact append_met (specifiers_exprAt _ target) (specifiers_exprAt _ value)
    · rfl
  | .destructure _ _ _ => rfl
  | .unary _ _ arg => specifiers_exprAt _ arg
  | .binary _ _ left right => append_met (specifiers_exprAt _ left) (specifiers_exprAt _ right)
  | .conditional _ test yes no =>
    append_met (append_met (specifiers_exprAt _ test) (specifiers_exprAt _ yes))
      (specifiers_exprAt _ no)
  | .wrapped _ _ inner _ => specifiers_exprAt loc inner
  | .other _ _ _ => rfl

theorem exprSpecifiers_exprs : (es : List Script.Expr) →
    exprSpecifiers (l.exprs es) = (Script.exprCalls es).filterMap Script.Call.specifier?
  | [] => rfl
  | e :: es => append_met (specifiers_exprAt _ e) (exprSpecifiers_exprs es)

theorem exprSpecifiers_arguments : (es : List Script.Element) →
    exprSpecifiers (l.arguments es) = (Script.argumentCalls es).filterMap Script.Call.specifier?
  | [] => rfl
  | .plain e :: es => append_met (specifiers_exprAt _ e) (exprSpecifiers_arguments es)
  | .spread _ _ :: es => exprSpecifiers_arguments es

theorem entrySpecifiers_elements : (es : List Script.Element) →
    entrySpecifiers (l.elements es) = (Script.elementCalls es).filterMap Script.Call.specifier?
  | [] => rfl
  | .plain e :: es => append_met (specifiers_exprAt _ e) (entrySpecifiers_elements es)
  | .spread _ e :: es => append_met (specifiers_exprAt _ e) (entrySpecifiers_elements es)

theorem specifiers_entry : (m : Script.Member) →
    (l.entry m).value.specifiers = m.calls.filterMap Script.Call.specifier?
  | .keyed _ _ value => specifiers_exprAt _ value
  | .shorthand _ _ => rfl
  | .defaulted _ _ _ => rfl
  | .method _ _ ps b _ => append_met (paramSpecifiers_params ps) (specifiers_body b)
  | .accessor _ _ _ _ => rfl
  | .spread _ value => specifiers_exprAt _ value

theorem entrySpecifiers_members : (ms : List Script.Member) →
    entrySpecifiers (l.members ms) = (Script.memberCalls ms).filterMap Script.Call.specifier?
  | [] => rfl
  | m :: ms => by
    refine Eq.trans ?_ (append_met (specifiers_entry m) (entrySpecifiers_members ms))
    change entrySpecifiers (l.entry m :: l.members ms) = _
    rcases l.entry m with ⟨kind, e, loc, comments⟩
    rfl

theorem optionSpecifiers_expr? : (e : Option Script.Expr) →
    optionSpecifiers (l.expr? e) = (Script.optionCalls e).filterMap Script.Call.specifier?
  | none => rfl
  | some e => specifiers_exprAt _ e

theorem specifiers_binding : (p : Script.Pattern) →
    (l.binding p).specifiers = p.calls.filterMap Script.Call.specifier?
  | .ident _ => rfl
  | .object ps => propertySpecifiers_properties ps
  | .other _ => rfl

theorem propertySpecifiers_properties : (ps : List Script.PatternProperty) →
    propertySpecifiers (l.properties ps) =
      (Script.propertyCalls ps).filterMap Script.Call.specifier?
  | [] => rfl
  | .bind _ _ default :: ps =>
    append_met (optionSpecifiers_expr? default) (propertySpecifiers_properties ps)
  | .other _ :: ps => propertySpecifiers_properties ps

theorem paramSpecifiers_params : (ps : List Script.Param) →
    paramSpecifiers (l.params ps) = (Script.paramCalls ps).filterMap Script.Call.specifier?
  | [] => rfl
  | .mk pattern _ default _ :: ps =>
    append_met (append_met (specifiers_binding pattern) (optionSpecifiers_expr? default))
      (paramSpecifiers_params ps)

theorem specifiers_body : (b : Script.Body) →
    (l.body b).specifiers = b.calls.filterMap Script.Call.specifier?
  | .expr e => specifiers_exprAt _ e
  | .block ss => bodySpecifiers_bodyStatements ss

theorem bodySpecifiers_bodyStatements : (ss : List Script.Statement) →
    bodySpecifiers (l.bodyStatements ss) =
      (Script.statementCalls ss).filterMap Script.Call.specifier?
  | [] => rfl
  | .declare ds :: ss =>
    append_met (declaratorSpecifiers_declarators ds) (bodySpecifiers_bodyStatements ss)
  | .returns e :: ss => append_met (optionSpecifiers_expr? e) (bodySpecifiers_bodyStatements ss)
  | .expression _ :: ss => bodySpecifiers_bodyStatements ss
  | .other _ :: ss => bodySpecifiers_bodyStatements ss

theorem declaratorSpecifiers_declarators : (ds : List Script.Declarator) →
    declaratorSpecifiers (l.declarators ds) =
      (Script.declaratorCalls ds).filterMap Script.Call.specifier?
  | [] => rfl
  | .mk pattern _ init :: ds =>
    append_met (append_met (specifiers_binding pattern) (optionSpecifiers_expr? init))
      (declaratorSpecifiers_declarators ds)
end

end Layout

/-! ### What is collected -/

namespace Script

theorem Call.mem_specifierOf {c : Call} {s : String} (hplain : c.isPlain = true)
    (h : c.specifier? = some s) : s ∈ specifierOf c.callee c.args := by
  obtain ⟨callee, args⟩ := c
  simp only [Call.isPlain] at hplain
  split at hplain
  next _ name _ text _ =>
    simp only [Call.specifier?, Expr.unwrapped, Call.text?, Option.getD_some] at h
    simp only [specifierOf]
    split at h
    next hname =>
      rw [if_pos hname, Option.some.inj h]
      exact List.mem_singleton_self s
    next => exact absurd h nofun
  next => exact absurd hplain Bool.false_ne_true

/-- Whatever calls refer to plainly is among some references. -/
def Collects (calls : List Call) (refs : References) : Prop :=
  ∀ c ∈ calls, ∀ s ∈ specifierOf c.callee c.args, s ∈ refs

namespace Collects

variable {calls calls' : List Call} {refs refs' : References}

theorem nil : Collects [] refs := nofun

theorem left (h : Collects calls refs) : Collects calls (refs ++ refs') :=
  fun c hc s hs => List.mem_append_left refs' (h c hc s hs)

theorem right (h : Collects calls refs') : Collects calls (refs ++ refs') :=
  fun c hc s hs => List.mem_append_right refs (h c hc s hs)

theorem append (h : Collects calls refs) (h' : Collects calls' refs') :
    Collects (calls ++ calls') (refs ++ refs') :=
  fun c hc => (List.mem_append.mp hc).elim (h.left c) (h'.right c)

end Collects

-- The collector looks into everything, so into all that the calls are listed of.
mutual
theorem Expr.collects : (e : Expr) → Collects e.calls e.references
  | .string _ _ => .nil
  | .literal _ _ => .nil
  | .regex _ _ _ => .nil
  | .template _ _ es => collects_exprs es
  | .ident _ _ => .nil
  | .object _ ms => collects_members ms
  | .array _ es => collects_elements es
  | .call _ constructs callee args _ => by
    rw [Expr.calls, Expr.references]
    refine (Collects.append (.append ?_ (Expr.collects callee)) (collects_arguments args)).left
    cases constructs with
    | true => exact .nil
    | false =>
      intro c hc s hs
      obtain rfl := List.mem_singleton.mp hc
      exact hs
  | .member _ object property => by
    rw [Expr.calls, Expr.references]
    split
    · exact (Expr.collects object).left
    · exact .nil
  | .function _ _ ps b _ => ((collects_params ps).append (Body.collects b)).left
  | .arrow _ ps b _ => ((collects_params ps).append (Body.collects b)).left
  | .assign _ target value => by
    rw [Expr.calls, Expr.references]
    split
    · exact (Expr.collects target).append (Expr.collects value)
    · exact .nil
  | .destructure _ _ _ => .nil
  | .unary _ _ arg => Expr.collects arg
  | .binary _ _ left right => (Expr.collects left).append (Expr.collects right)
  | .conditional _ test yes no =>
    ((Expr.collects test).append (Expr.collects yes)).append (Expr.collects no)
  | .wrapped _ _ inner _ => (Expr.collects inner).left
  | .other _ _ _ => .nil

theorem collects_exprs : (es : List Expr) → Collects (exprCalls es) (exprReferences es)
  | [] => .nil
  | e :: es => (Expr.collects e).append (collects_exprs es)

theorem collects_arguments : (es : List Element) →
    Collects (argumentCalls es) (elementReferences es)
  | [] => .nil
  | .plain e :: es => (Expr.collects e).append (collects_arguments es)
  | .spread _ _ :: es => (collects_arguments es).right

theorem collects_elements : (es : List Element) → Collects (elementCalls es) (elementReferences es)
  | [] => .nil
  | .plain e :: es => (Expr.collects e).append (collects_elements es)
  | .spread _ e :: es => (Expr.collects e).append (collects_elements es)

theorem Member.collects : (m : Member) → Collects m.calls m.references
  | .keyed _ _ value => (Expr.collects value).right
  | .shorthand _ _ => .nil
  | .defaulted _ _ _ => .nil
  | .method _ _ ps b _ => by
    rw [Member.calls, Member.references]
    exact ((collects_params ps).right.append (Body.collects b)).left
  | .accessor _ _ _ _ => .nil
  | .spread _ value => Expr.collects value

theorem collects_members : (ms : List Member) → Collects (memberCalls ms) (memberReferences ms)
  | [] => .nil
  | m :: ms => (Member.collects m).append (collects_members ms)

theorem collects_option : (e : Option Expr) → Collects (optionCalls e) (optionReferences e)
  | none => .nil
  | some e => Expr.collects e

theorem Pattern.collects : (p : Pattern) → Collects p.calls p.references
  | .ident _ => .nil
  | .object ps => collects_properties ps
  | .other _ => .nil

theorem collects_properties : (ps : List PatternProperty) →
    Collects (propertyCalls ps) (patternReferences ps)
  | [] => .nil
  | .bind _ _ default :: ps => (collects_option default).right.append (collects_properties ps)
  | .other _ :: ps => (collects_properties ps).right

theorem collects_params : (ps : List Param) → Collects (paramCalls ps) (paramReferences ps)
  | [] => .nil
  | .mk pattern _ default _ :: ps =>
    ((Pattern.collects pattern).left.append (collects_option default)).append (collects_params ps)

theorem Body.collects : (b : Body) → Collects b.calls b.references
  | .expr e => Expr.collects e
  | .block ss => collects_statements ss

theorem collects_statements : (ss : List Statement) →
    Collects (statementCalls ss) (statementReferences ss)
  | [] => .nil
  | .declare ds :: ss => (collects_declarators ds).append (collects_statements ss)
  | .returns e :: ss => (collects_option e).append (collects_statements ss)
  | .expression _ :: ss => (collects_statements ss).right
  | .other _ :: ss => (collects_statements ss).right

theorem collects_declarators : (ds : List Declarator) →
    Collects (declaratorCalls ds) (declaratorReferences ds)
  | [] => .nil
  | .mk pattern _ init :: ds =>
    ((Pattern.collects pattern).left.append (collects_option init)).append (collects_declarators ds)
end

theorem Item.collects (item : Item) : Collects item.calls item.references := by
  rw [Item.calls, Item.references]
  split
  next ds hkind => rw [hkind]; exact collects_declarators ds
  next e hkind => rw [hkind]; exact e.collects
  next ds hkind => rw [hkind]; exact collects_declarators ds
  next e hkind => rw [hkind]; exact e.collects
  next => exact .nil

/-- A call that is met in a program is collected, or hidden. -/
theorem Item.collected_or_hidden {item : Item} {s : String}
    (h : s ∈ item.calls.filterMap Call.specifier?) :
    s ∈ item.references ∨ s ∈ item.calls.filterMap Call.hidden? := by
  obtain ⟨c, hc, hs⟩ := List.mem_filterMap.mp h
  by_cases hplain : c.isPlain = true
  · exact Or.inl (item.collects c hc s (c.mem_specifierOf hplain hs))
  · refine Or.inr (List.mem_filterMap.mpr ⟨c, hc, ?_⟩)
    rw [Call.hidden?, if_neg hplain, hs]

theorem Item.met_of_hidden {item : Item} {s : String}
    (h : s ∈ item.calls.filterMap Call.hidden?) : s ∈ item.calls.filterMap Call.specifier? := by
  obtain ⟨c, hc, hs⟩ := List.mem_filterMap.mp h
  refine List.mem_filterMap.mpr ⟨c, hc, ?_⟩
  rw [Call.hidden?] at hs
  split at hs
  · exact absurd hs nofun
  · exact hs

end Script

/-- The statement of an item that is no import asks for what its calls refer to. -/
theorem Layout.specifiers_statementKind (l : Layout) (item : Script.Item) (loc : Loc)
    (comments : Comments) (h : ∀ source bindings, item.kind ≠ .imports source bindings) :
    Statement.specifiers ⟨l.statementKind item.kind, loc, comments⟩ =
      item.calls.filterMap Script.Call.specifier? := by
  obtain ⟨kind, span⟩ := item
  rw [Statement.specifiers, Script.Item.calls]
  cases kind with
  | statement s =>
    cases s with
    | declare ds => exact l.declaratorSpecifiers_declarators ds
    | expression e => exact l.specifiers_exprAt _ e
    | returns e => rfl
    | other refs => rfl
  | exported ds => exact l.declaratorSpecifiers_declarators ds
  | imports source bindings => exact absurd rfl (h source bindings)
  | exportDefault e => exact l.specifiers_exprAt _ e
  | exportNames names => rfl
  | other refs => rfl

theorem Script.Item.hidden_eq {item : Script.Item}
    (h : ∀ source bindings, item.kind ≠ .imports source bindings) :
    item.hidden = item.calls.filterMap Script.Call.hidden? := by
  rw [Script.Item.hidden]
  split
  next bindings hkind => exact absurd hkind (h none bindings)
  next => rfl

/-- **What a statement asks for is collected or hidden**, and what is hidden is asked for. -/
theorem Layout.specifiers_statement (l : Layout) (item : Script.Item) (loc : Loc)
    (comments : Comments) (s : String) :
    (s ∈ Statement.specifiers ⟨l.statementKind item.kind, loc, comments⟩ →
      s ∈ item.references ∨ s ∈ item.hidden) ∧
    (s ∈ item.hidden → s ∈ Statement.specifiers ⟨l.statementKind item.kind, loc, comments⟩) := by
  by_cases himport : ∃ source bindings, item.kind = .imports source bindings
  · obtain ⟨source, bindings, hkind⟩ := himport
    rw [Statement.specifiers, Script.Item.references, Script.Item.hidden, hkind]
    cases source with
    | none => exact ⟨Or.inr, id⟩
    | some source =>
      have hcalls : item.calls = [] := by rw [Script.Item.calls, hkind]
      rw [hcalls]
      exact ⟨Or.inl, nofun⟩
  · have hnot : ∀ source bindings, item.kind ≠ .imports source bindings := fun source bindings h =>
      himport ⟨source, bindings, h⟩
    rw [l.specifiers_statementKind item loc comments hnot, Script.Item.hidden_eq hnot]
    exact ⟨Script.Item.collected_or_hidden, Script.Item.met_of_hidden⟩

theorem Layout.mem_specifiers_statements (l : Layout) (items : List Script.Item) (lo : Nat)
    (s : String) :
    (s ∈ (l.statements lo items).flatMap Statement.specifiers →
      s ∈ items.flatMap Script.Item.references ∨ s ∈ items.flatMap Script.Item.hidden) ∧
    (s ∈ items.flatMap Script.Item.hidden →
      s ∈ (l.statements lo items).flatMap Statement.specifiers) := by
  induction items generalizing lo with
  | nil => exact ⟨nofun, nofun⟩
  | cons item items ih =>
    obtain ⟨hcollected, hhidden⟩ := ih (l.loc item.span).hi
    obtain ⟨hcollected', hhidden'⟩ := l.specifiers_statement item (l.loc item.span)
      { leading := l.between lo (l.loc item.span).lo, trailing := [] } s
    simp only [Layout.statements, List.flatMap_cons, List.mem_append]
    constructor
    · rintro (h | h)
      · exact (hcollected' h).imp Or.inl Or.inl
      · exact (hcollected h).imp Or.inr Or.inr
    · exact Or.imp hhidden' hhidden

/-! ### Comments do not matter -/

theorem Expr.ident?_reattach (e : Expr) : e.reattach.ident? = e.ident? := by
  cases e <;> rfl

theorem Expr.string?_reattach (e : Expr) : e.reattach.string? = e.string? := by
  cases e with
  | lit loc value => rfl
  | _ => rfl

theorem specifier?_reattach (callee : Expr) (args : List Expr) :
    specifier? callee.reattach (reattachExprs args) = specifier? callee args := by
  rw [specifier?, specifier?, Expr.ident?_reattach]
  cases args with
  | nil => rfl
  | cons e es =>
    simp only [reattachExprs, List.head?_cons, Option.bind_some, Expr.string?_reattach]

theorem entrySpecifiers_withComments (entry : Entry) (comments : Comments) (rest : List Entry) :
    entrySpecifiers (entry.withComments comments :: rest) = entrySpecifiers (entry :: rest) := by
  obtain ⟨kind, e, loc, old⟩ := entry
  rfl

theorem entrySpecifiers_reattachAfter (entry : Entry) (rest : List Entry) :
    entrySpecifiers (reattachAfter entry rest) = entrySpecifiers (entry :: rest) := by
  induction rest generalizing entry with
  | nil => rfl
  | cons next rest ih =>
    rw [reattachAfter, entrySpecifiers_withComments]
    obtain ⟨kind, e, loc, comments⟩ := entry
    rw [entrySpecifiers, entrySpecifiers, ih, entrySpecifiers_withComments]

theorem entrySpecifiers_reattachSiblings (entries : List Entry) :
    entrySpecifiers (reattachSiblings entries) = entrySpecifiers entries := by
  cases entries with
  | nil => rfl
  | cons entry rest => exact entrySpecifiers_reattachAfter entry rest

theorem append_eq {xs xs' ys ys' : List String} (h : xs = xs') (h' : ys = ys') :
    xs ++ ys = xs' ++ ys' := by
  rw [h, h']

mutual
theorem Expr.specifiers_reattach : (e : Expr) → e.reattach.specifiers = e.specifiers
  | .lit _ _ => rfl
  | .regex _ _ _ => rfl
  | .template _ _ es => exprSpecifiers_reattach es
  | .ident _ _ => rfl
  | .object _ entries =>
    (entrySpecifiers_reattachSiblings _).trans (entrySpecifiers_reattachValues entries)
  | .array _ entries =>
    (entrySpecifiers_reattachSiblings _).trans (entrySpecifiers_reattachValues entries)
  | .call _ constructs callee args => by
    have hcallee := Expr.specifiers_reattach callee
    have hargs := exprSpecifiers_reattach args
    rw [Expr.reattach, Expr.specifiers, Expr.specifiers, specifier?_reattach, hcallee, hargs]
  | .member _ object _ => Expr.specifiers_reattach object
  | .function _ f => FunctionLit.specifiers_reattach f
  | .assign _ target value =>
    append_eq (Expr.specifiers_reattach target) (Expr.specifiers_reattach value)
  | .unary _ _ arg => Expr.specifiers_reattach arg
  | .binary _ _ left right =>
    append_eq (Expr.specifiers_reattach left) (Expr.specifiers_reattach right)
  | .conditional _ test yes no =>
    append_eq (append_eq (Expr.specifiers_reattach test) (Expr.specifiers_reattach yes))
      (Expr.specifiers_reattach no)
  | .unmodelled _ _ => rfl

theorem exprSpecifiers_reattach : (es : List Expr) →
    exprSpecifiers (reattachExprs es) = exprSpecifiers es
  | [] => rfl
  | e :: es => append_eq (Expr.specifiers_reattach e) (exprSpecifiers_reattach es)

theorem entrySpecifiers_reattachValues : (entries : List Entry) →
    entrySpecifiers (reattachValues entries) = entrySpecifiers entries
  | [] => rfl
  | .mk _ e _ _ :: entries =>
    append_eq (Expr.specifiers_reattach e) (entrySpecifiers_reattachValues entries)

theorem FunctionLit.specifiers_reattach : (f : FunctionLit) → f.reattach.specifiers = f.specifiers
  | .mk _ params body =>
    append_eq (paramSpecifiers_reattach params) (FunctionBody.specifiers_reattach body)

theorem paramSpecifiers_reattach : (params : List Param) →
    paramSpecifiers (reattachParams params) = paramSpecifiers params
  | [] => rfl
  | .mk _ default _ :: params =>
    append_eq (append_eq rfl (optionSpecifiers_reattach default)) (paramSpecifiers_reattach params)

theorem optionSpecifiers_reattach : (e : Option Expr) →
    optionSpecifiers (reattach? e) = optionSpecifiers e
  | none => rfl
  | some e => Expr.specifiers_reattach e

theorem FunctionBody.specifiers_reattach : (b : FunctionBody) → b.reattach.specifiers = b.specifiers
  | .expr e => Expr.specifiers_reattach e
  | .block ss => bodySpecifiers_reattach ss

theorem bodySpecifiers_reattach : (ss : List BodyStatement) →
    bodySpecifiers (reattachBody ss) = bodySpecifiers ss
  | [] => rfl
  | .declare ds :: ss => append_eq (declaratorSpecifiers_reattach ds) (bodySpecifiers_reattach ss)
  | .returns e :: ss => append_eq (optionSpecifiers_reattach e) (bodySpecifiers_reattach ss)
  | .other :: ss => bodySpecifiers_reattach ss

theorem declaratorSpecifiers_reattach : (ds : List Declarator) →
    declaratorSpecifiers (reattachDeclarators ds) = declaratorSpecifiers ds
  | [] => rfl
  | .mk _ init :: ds =>
    append_eq (append_eq rfl (optionSpecifiers_reattach init)) (declaratorSpecifiers_reattach ds)
end

theorem Statement.specifiers_reattach (s : Statement) : s.reattach.specifiers = s.specifiers := by
  obtain ⟨kind, loc, comments⟩ := s
  cases kind with
  | declare exported ds => exact declaratorSpecifiers_reattach ds
  | expression e => exact e.specifiers_reattach
  | exportDefault e => exact e.specifiers_reattach
  | imports source bindings => rfl
  | exportNames names => rfl
  | other => rfl

/-- A program asks for the same specifiers wherever its comments are. -/
theorem Program.specifiers_reattach (p : Program) : p.reattach.specifiers = p.specifiers := by
  rw [Program.specifiers, Program.reattach, List.flatMap_map]
  simp only [Statement.specifiers_reattach]
  rfl

/-! ### Texts and indexes -/

namespace ParsedSource

/-- The references that are hidden in the text of a file. -/
def hidden (source : String) (path : Path) : List String :=
  match Script.parseText (languageOf path) (Text.dropByteOrderMark source.toList) with
  | .ok parsed => parsed.file.hidden
  | .error _ => []

/-- **What the program of a text asks for is collected or hidden**, and what is hidden is asked
for. -/
theorem collected_or_hidden {source : String} {path : Path} {parsed : ParsedSource}
    (h : ofText source path = .ok parsed) (s : String) :
    (s ∈ parsed.program.specifiers → s ∈ parsed.requires ∨ s ∈ hidden source path) ∧
      (s ∈ hidden source path → s ∈ parsed.program.specifiers) := by
  unfold ofText at h
  unfold hidden
  simp only at h
  split at h
  next tree hparse =>
    obtain rfl := Except.ok.inj h
    simp only [hparse]
    have hitems := (Layout.of (Text.dropByteOrderMark source.toList) tree.comments
      ).mem_specifiers_statements tree.file.items 0 s
    refine ⟨fun hs => (hitems.1 hs).imp_left fun hmem => ?_, hitems.2⟩
    exact List.mem_eraseDups.mpr hmem
  next => exact absurd h nofun
  next => exact absurd h nofun

end ParsedSource

namespace ModuleIndex

/-- The text of a module of an index: that of the entry, or what its file holds. -/
def text (fs : FileSystem) (entry : String) (index : ModuleIndex) (i : ModuleId) : String :=
  if i = 0 then entry else (fs.read? (index.path i)).getD ""

theorem loadModule_script {fs : FileSystem} {path : Path} {program : Program}
    {requires : List String} (h : loadModule fs path = .ok (.script program, requires)) :
    ∃ source parsed, fs.read? path = some source ∧ ParsedSource.ofText source path = .ok parsed ∧
      program = parsed.program.reattach ∧ requires = parsed.requires := by
  unfold loadModule at h
  split at h
  next => exact absurd h nofun
  next source hread =>
    split at h
    · split at h <;> exact absurd h nofun
    · split at h
      next parsed hparsed =>
        obtain ⟨hsource, rfl⟩ := Prod.mk.inj (Except.ok.inj h)
        exact ⟨source, parsed, hread, hparsed, (ModuleSource.script.inj hsource).symm, rfl⟩
      next => exact absurd h nofun

/-- Every script of an index is the program of its text, and its specifiers are those collected
there. -/
theorem Reached.parsed_of_program {fs : FileSystem} {entry : String} {path : Path}
    {parsed : ParsedSource} {index : ModuleIndex} (h : index.Reached fs path parsed)
    (hparsed : ParsedSource.ofText entry path = .ok parsed) {i : Nat} {program : Program}
    (hprogram : index.program? i = some program) :
    ∃ parsed', ParsedSource.ofText (index.text fs entry i) (index.path i) = .ok parsed' ∧
      program = parsed'.program.reattach ∧
      index.specifiers fs parsed.requires i = parsed'.requires := by
  obtain ⟨m, hm, hsource⟩ := Option.bind_eq_some_iff.mp hprogram
  have hscript : m.source = .script program := by
    rw [SourceModule.program?] at hsource
    split at hsource
    next p hp => rw [hp, Option.some.inj hsource]
    next => cases hsource
  have hpath : index.path i = m.path := by rw [ModuleIndex.path, hm]; rfl
  cases i with
  | zero =>
    obtain rfl := Option.some.inj (h.entry.symm.trans hm)
    exact ⟨parsed, by rwa [hpath], (ModuleSource.script.inj hscript).symm, rfl⟩
  | succ j =>
    obtain ⟨requires, hload⟩ := h.others j m hm
    have hspecifiers : index.specifiers fs parsed.requires (j + 1) = requires := by
      simp only [ModuleIndex.specifiers, hm, hload]
    rw [hscript] at hload
    obtain ⟨source, parsed', hread, hparsed', hprogram', rfl⟩ := loadModule_script hload
    refine ⟨parsed', ?_, hprogram', hspecifiers⟩
    rw [ModuleIndex.text, if_neg (Nat.succ_ne_zero j), hpath, hread]
    exact hparsed'

end ModuleIndex

/-! ### What becomes of references -/

/-- A reference leads to where its link does: evaluating it goes on with the exports of a module, or
stops because the file could not be loaded. -/
def IsFollowed (env : Environment) (m : ModuleId) (s : String) : Prop :=
  ∃ link, env.index.link? m s = some link ∧ ∀ (enter : Evaluator Session) (session : Session),
    Evaluate.require enter m s env session =
      match link with
      | .loaded id => Evaluate.exportsOf enter id env session
      | .failed reason =>
        (.error (.error (.moduleLoad s (env.index.path m) reason)), session)

/-- A reference is taken for one to a package: evaluating it reports so, and gives nothing known. -/
def IsTakenForPackage (env : Environment) (m : ModuleId) (s : String) : Prop :=
  ∀ (enter : Evaluator Session) (session : Session), Evaluate.require enter m s env session =
    (.ok .unknown, { session with
      log := session.log.warn s!"package '{s}' is not analyzed; its exports are unknown" })

theorem run_require (enter : Evaluator Session) (env : Environment) (m : ModuleId) (s : String)
    (session : Session) : Evaluate.require enter m s env session =
      match env.index.link? m s with
      | none => (.ok .unknown, { session with
          log := session.log.warn s!"package '{s}' is not analyzed; its exports are unknown" })
      | some (.failed reason) => (.error (.error (.moduleLoad s (env.index.path m) reason)), session)
      | some (.loaded id) => Evaluate.exportsOf enter id env session := by
  rw [Evaluate.require]
  have hindex : (Eval.index : Eval ModuleIndex) env session = (.ok env.index, session) := rfl
  rw [Eval.run_bind_ok hindex]
  cases env.index.link? m s with
  | none => rfl
  | some link => cases link <;> rfl

theorem isFollowed_of_link? {env : Environment} {m : ModuleId} {s : String} {link : Link}
    (h : env.index.link? m s = some link) : IsFollowed env m s := by
  refine ⟨link, h, fun enter session => ?_⟩
  rw [run_require, h]
  cases link <;> rfl

theorem isTakenForPackage_of_link? {env : Environment} {m : ModuleId} {s : String}
    (h : env.index.link? m s = none) : IsTakenForPackage env m s := by
  intro enter session
  rw [run_require, h]

/-- **References are collected unless they are hidden.** Whatever the program of a text asks for is
collected from it, or hidden in it; and all that is hidden is asked for. So in every index a relative
specifier that a program asks for has a link and is followed, unless it is hidden in the text of the
program and nothing else there has it collected: then it is taken for a package. -/
theorem references_are_collected_unless_hidden (fs : FileSystem) (entry : String) (path : Path)
    (log : Log) {parsed : ParsedSource} (hparsed : ParsedSource.ofText entry path = .ok parsed) :
    (∀ s, (s ∈ parsed.program.specifiers →
        s ∈ parsed.requires ∨ s ∈ ParsedSource.hidden entry path) ∧
      (s ∈ ParsedSource.hidden entry path → s ∈ parsed.program.specifiers)) ∧
    ∃ index log', ModuleIndex.ofText fs entry path log = .ok (index, log') ∧
      ∀ i program, index.program? i = some program → ∃ parsed',
        ParsedSource.ofText (index.text fs entry i) (index.path i) = .ok parsed' ∧
        program = parsed'.program.reattach ∧
        ∀ s ∈ program.specifiers, Path.isRelative s = true → ∀ config,
          (s ∈ parsed'.requires ∧ IsFollowed ⟨index, config⟩ i s) ∨
          (s ∈ ParsedSource.hidden (index.text fs entry i) (index.path i) ∧
            s ∉ parsed'.requires ∧ IsTakenForPackage ⟨index, config⟩ i s) := by
  refine ⟨ParsedSource.collected_or_hidden hparsed, ?_⟩
  obtain ⟨hindex, -, hreached⟩ := ModuleIndex.ofText_reached fs log hparsed
  refine ⟨_, _, hindex, fun i program hprogram => ?_⟩
  obtain ⟨parsed', hparsed', rfl, hspecifiers⟩ := hreached.parsed_of_program hparsed hprogram
  refine ⟨parsed', hparsed', rfl, fun s hs hrelative config => ?_⟩
  have hlink := hreached.link_iff i s
  rw [hspecifiers] at hlink
  by_cases hcollected : s ∈ parsed'.requires
  · have hsome := hlink.mpr ⟨by rw [hprogram]; rfl, hcollected, hrelative⟩
    obtain ⟨link, h⟩ := Option.isSome_iff_exists.mp hsome
    exact Or.inl ⟨hcollected, isFollowed_of_link? h⟩
  · have hnone := Option.not_isSome_iff_eq_none.mp fun hsome => hcollected (hlink.mp hsome).2.1
    rw [Program.specifiers_reattach] at hs
    have hhidden := ((ParsedSource.collected_or_hidden hparsed' s).1 hs).resolve_left hcollected
    exact Or.inr ⟨hhidden, hcollected, isTakenForPackage_of_link? hnone⟩

/-- **Not every reference is collected**: an argument between parentheses is not. -/
theorem not_every_reference_is_collected :
    ¬∀ source path parsed, ParsedSource.ofText source path = .ok parsed →
      ∀ s ∈ parsed.program.specifiers, s ∈ parsed.requires := by
  intro h
  have hmissed : ((ParsedSource.ofText "const a = require(('./a'));" "model.js").toOption.any
      fun parsed => decide ("./a" ∈ parsed.program.specifiers ∧ "./a" ∉ parsed.requires)) =
        true := by decide +kernel
  cases hparsed : ParsedSource.ofText "const a = require(('./a'));" "model.js" with
  | error failure =>
    rw [hparsed] at hmissed
    exact absurd hmissed Bool.false_ne_true
  | ok parsed =>
    rw [hparsed] at hmissed
    obtain ⟨hasked, hnot⟩ := of_decide_eq_true hmissed
    exact hnot (h _ _ parsed hparsed "./a" hasked)

/-- Of two files, the one between parentheses is taken for a package. -/
theorem reference_between_parentheses :
    let entry := "const a = require('./a'), b = require(('./b'));"
    let fs : FileSystem :=
      { nodes := [(["a.js"], .file "exports.x = 1;"), (["b.js"], .file "")], workingDirectory := [] }
    ∃ parsed, ParsedSource.ofText entry "model.js" = .ok parsed ∧
      ∃ index log', ModuleIndex.ofText fs entry "model.js" (.empty true) = .ok (index, log') ∧
        IsFollowed ⟨index, .standard⟩ 0 "./a" ∧ IsTakenForPackage ⟨index, .standard⟩ 0 "./b" := by
  intro entry fs
  have hfacts : ((ParsedSource.ofText entry "model.js").toOption.any fun parsed =>
      decide (parsed.requires = ["./a"] ∧
        parsed.program.reattach.specifiers = ["./a", "./b"])) = true := by decide +kernel
  have hpath : ((ModuleIndex.ofText fs entry "model.js" (.empty true)).toOption.any fun indexed =>
      decide (indexed.1.path 0 = "model.js") && (indexed.1.program? 0).isSome) = true := by
    decide +kernel
  cases hparsed : ParsedSource.ofText entry "model.js" with
  | error failure =>
    rw [hparsed] at hfacts
    exact absurd hfacts Bool.false_ne_true
  | ok parsed =>
    obtain ⟨-, index, log', hindex, hmodules⟩ :=
      references_are_collected_unless_hidden fs entry "model.js" (.empty true) hparsed
    rw [hparsed] at hfacts
    rw [hindex] at hpath
    obtain ⟨hrequires, hspecifiers⟩ := of_decide_eq_true hfacts
    obtain ⟨hpath, hsome⟩ := Bool.and_eq_true_iff.mp hpath
    obtain ⟨program, hprogram⟩ := Option.isSome_iff_exists.mp hsome
    obtain ⟨parsed', hparsed', rfl, hreferences⟩ := hmodules 0 program hprogram
    rw [of_decide_eq_true hpath] at hparsed'
    obtain rfl : parsed = parsed' := Except.ok.inj (hparsed.symm.trans hparsed')
    rw [hspecifiers, hrequires] at hreferences
    refine ⟨parsed, rfl, index, log', hindex, ?_, ?_⟩
    · exact ((hreferences "./a" (by decide) (by decide +kernel) .standard).resolve_right
        fun h => h.2.1 (by decide)).2
    · exact ((hreferences "./b" (by decide) (by decide +kernel) .standard).resolve_left
        fun h => absurd h.1 (by decide)).2.2

end SchemaDoc
