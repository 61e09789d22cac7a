import SchemaDoc.Program.Reattach
import Mathlib.Data.List.Chain
import Mathlib.Data.List.Forall2

/-!
# What reattaching comments does

Reattaching walks through a whole program, but what it does happens between neighbours in one
literal. This file takes the two apart.

The walk is the map `Expr.mapLiterals`, which changes the entries of every literal by one function.
Two facts about it hold for every function that leaves the values of the entries alone
(`LeavesValues`): two maps in a row are one map (`LeavesValues.program_comp`), and the literals of
the result are the changed literals (`LeavesValues.program_literals`). So a fact about all literals
of a program follows from the same fact about one list of entries.

Between neighbours, a comment that is moved is handed back by the entry that it stands in front of
to the entry before it (`HandsBack`). The first entry hands nothing back, so nothing is lost; and
afterwards no entry is left with a comment that it could hand back (`Tidy`), so there is nothing to
do a second time.
-/

namespace SchemaDoc

/-! ### The literals of a program -/

mutual
/-- The entries of the object and array literals in an expression, those of a literal before those
of the literals inside it. The defaults in a pattern are not looked into. -/
def Expr.literals : Expr → List (List Entry)
  | .lit _ _ => []
  | .regex _ _ _ => []
  | .template _ _ exprs => exprLiterals exprs
  | .ident _ _ => []
  | .object _ entries => entries :: entryLiterals entries
  | .array _ entries => entries :: entryLiterals entries
  | .call _ _ callee args => callee.literals ++ exprLiterals args
  | .member _ object _ => object.literals
  | .function _ f => f.literals
  | .assign _ target value => target.literals ++ value.literals
  | .unary _ _ arg => arg.literals
  | .binary _ _ left right => left.literals ++ right.literals
  | .conditional _ test yes no => test.literals ++ yes.literals ++ no.literals
  | .unmodelled _ _ => []

/-- The literals in expressions. -/
def exprLiterals : List Expr → List (List Entry)
  | [] => []
  | e :: es => e.literals ++ exprLiterals es

/-- The literals in the values of entries. -/
def entryLiterals : List Entry → List (List Entry)
  | [] => []
  | .mk _ value _ _ :: entries => value.literals ++ entryLiterals entries

/-- The literals in the defaults of a function's parameters and in its body. -/
def FunctionLit.literals : FunctionLit → List (List Entry)
  | .mk _ params body => paramLiterals params ++ body.literals

/-- The literals in the defaults of parameters. -/
def paramLiterals : List Param → List (List Entry)
  | [] => []
  | .mk _ default _ :: params => optionLiterals default ++ paramLiterals params

/-- The literals in an expression that may be missing. -/
def optionLiterals : Option Expr → List (List Entry)
  | none => []
  | some e => e.literals

/-- The literals in the body of a function. -/
def FunctionBody.literals : FunctionBody → List (List Entry)
  | .expr value => value.literals
  | .block statements => bodyLiterals statements

/-- The literals in the statements of a body. -/
def bodyLiterals : List BodyStatement → List (List Entry)
  | [] => []
  | .declare ds :: ss => declaratorLiterals ds ++ bodyLiterals ss
  | .returns e :: ss => optionLiterals e ++ bodyLiterals ss
  | .other :: ss => bodyLiterals ss

/-- The literals in the initializers of declarators. -/
def declaratorLiterals : List Declarator → List (List Entry)
  | [] => []
  | .mk _ init :: ds => optionLiterals init ++ declaratorLiterals ds
end

/-- The literals in a statement. -/
def Statement.literals (s : Statement) : List (List Entry) :=
  match s.kind with
  | .declare _ ds => declaratorLiterals ds
  | .expression e => e.literals
  | .exportDefault e => e.literals
  | .imports _ _ => []
  | .exportNames _ => []
  | .other => []

/-- **The literals of a program**: those in initializers, in expression statements and in the
default export. -/
def Program.literals (p : Program) : List (List Entry) := p.body.flatMap Statement.literals

/-! ### Changing all literals -/

/-- An entry with another value. -/
def Entry.mapValue (h : Expr → Expr) : Entry → Entry
  | .mk kind value loc comments => .mk kind (h value) loc comments

mutual
/-- An expression with the entries of all its literals changed, those of inner literals first. -/
def Expr.mapLiterals (f : List Entry → List Entry) : Expr → Expr
  | .lit loc v => .lit loc v
  | .regex loc pattern flags => .regex loc pattern flags
  | .template loc chunks exprs => .template loc chunks (mapExprs f exprs)
  | .ident loc name => .ident loc name
  | .object loc entries => .object loc (f (mapValues f entries))
  | .array loc entries => .array loc (f (mapValues f entries))
  | .call loc constructs callee args =>
    .call loc constructs (callee.mapLiterals f) (mapExprs f args)
  | .member loc object property => .member loc (object.mapLiterals f) property
  | .function loc g => .function loc (g.mapLiterals f)
  | .assign loc target value => .assign loc (target.mapLiterals f) (value.mapLiterals f)
  | .unary loc op arg => .unary loc op (arg.mapLiterals f)
  | .binary loc op left right => .binary loc op (left.mapLiterals f) (right.mapLiterals f)
  | .conditional loc test yes no =>
    .conditional loc (test.mapLiterals f) (yes.mapLiterals f) (no.mapLiterals f)
  | .unmodelled loc label => .unmodelled loc label

/-- Expressions with their literals changed. -/
def mapExprs (f : List Entry → List Entry) : List Expr → List Expr
  | [] => []
  | e :: es => e.mapLiterals f :: mapExprs f es

/-- Entries with the literals in their values changed. -/
def mapValues (f : List Entry → List Entry) : List Entry → List Entry
  | [] => []
  | .mk kind value loc comments :: es =>
    .mk kind (value.mapLiterals f) loc comments :: mapValues f es

/-- A function with the literals of its defaults and its body changed. -/
def FunctionLit.mapLiterals (f : List Entry → List Entry) : FunctionLit → FunctionLit
  | .mk name params body => .mk name (mapParams f params) (body.mapLiterals f)

/-- Parameters with the literals of their defaults changed. -/
def mapParams (f : List Entry → List Entry) : List Param → List Param
  | [] => []
  | .mk binding default rest :: ps => .mk binding (mapOption f default) rest :: mapParams f ps

/-- An expression that may be missing, with its literals changed. -/
def mapOption (f : List Entry → List Entry) : Option Expr → Option Expr
  | none => none
  | some e => some (e.mapLiterals f)

/-- The body of a function with its literals changed. -/
def FunctionBody.mapLiterals (f : List Entry → List Entry) : FunctionBody → FunctionBody
  | .expr value => .expr (value.mapLiterals f)
  | .block statements => .block (mapBody f statements)

/-- The statements of a body with their literals changed. -/
def mapBody (f : List Entry → List Entry) : List BodyStatement → List BodyStatement
  | [] => []
  | .declare ds :: ss => .declare (mapDeclarators f ds) :: mapBody f ss
  | .returns e :: ss => .returns (mapOption f e) :: mapBody f ss
  | .other :: ss => .other :: mapBody f ss

/-- Declarators with the literals of their initializers changed. -/
def mapDeclarators (f : List Entry → List Entry) : List Declarator → List Declarator
  | [] => []
  | .mk binding init :: ds => .mk binding (mapOption f init) :: mapDeclarators f ds
end

/-- A statement with its literals changed. -/
def Statement.mapLiterals (f : List Entry → List Entry) (s : Statement) : Statement :=
  { s with
    kind := match s.kind with
      | .declare exported ds => .declare exported (mapDeclarators f ds)
      | .expression e => .expression (e.mapLiterals f)
      | .exportDefault e => .exportDefault (e.mapLiterals f)
      | .imports source bindings => .imports source bindings
      | .exportNames names => .exportNames names
      | .other => .other }

/-- A program with its literals changed. -/
def Program.mapLiterals (f : List Entry → List Entry) (p : Program) : Program :=
  { p with body := p.body.map (Statement.mapLiterals f) }

theorem mapValues_eq (f : List Entry → List Entry) (entries : List Entry) :
    mapValues f entries = entries.map (Entry.mapValue (Expr.mapLiterals f)) := by
  induction entries with
  | nil => rfl
  | cons entry entries ih =>
    obtain ⟨kind, value, loc, comments⟩ := entry
    rw [mapValues, ih]
    rfl

/-- The literals in entries are those in their values. -/
theorem entryLiterals_eq (entries : List Entry) :
    entryLiterals entries = exprLiterals (entries.map Entry.value) := by
  induction entries with
  | nil => rfl
  | cons entry entries ih =>
    obtain ⟨kind, value, loc, comments⟩ := entry
    rw [entryLiterals, ih]
    rfl

/-- A change of entries that leaves their values alone, and does not depend on them. -/
structure LeavesValues (f : List Entry → List Entry) : Prop where
  values : ∀ entries, (f entries).map Entry.value = entries.map Entry.value
  natural : ∀ h entries, f (entries.map (Entry.mapValue h)) = (f entries).map (Entry.mapValue h)

/-- What becomes of the entries of a literal when all literals are changed. -/
def changed (f : List Entry → List Entry) (entries : List Entry) : List Entry :=
  (f entries).map (Entry.mapValue (Expr.mapLiterals f))

namespace LeavesValues

variable {f g : List Entry → List Entry}

/-! ### Two changes in a row -/

/-- A literal, if it is known of the literals inside. -/
theorem literal_comp (hf : LeavesValues f) {entries : List Entry}
    (h : mapValues g (mapValues f entries) = mapValues (g ∘ f) entries) :
    g (mapValues g (f (mapValues f entries))) = (g ∘ f) (mapValues (g ∘ f) entries) := by
  rw [mapValues_eq g, ← hf.natural, ← mapValues_eq g, h]
  rfl

mutual
/-- **Two changes in a row are one.** -/
theorem expr_comp (hf : LeavesValues f) : (e : Expr) →
    (e.mapLiterals f).mapLiterals g = e.mapLiterals (g ∘ f)
  | .lit _ _ => rfl
  | .regex _ _ _ => rfl
  | .template loc chunks es => congrArg (Expr.template loc chunks) (hf.exprs_comp es)
  | .ident _ _ => rfl
  | .object loc entries => congrArg (Expr.object loc) (hf.literal_comp (hf.values_comp entries))
  | .array loc entries => congrArg (Expr.array loc) (hf.literal_comp (hf.values_comp entries))
  | .call loc constructs callee args =>
    congrArg₂ (Expr.call loc constructs) (hf.expr_comp callee) (hf.exprs_comp args)
  | .member loc object property => congrArg (Expr.member loc · property) (hf.expr_comp object)
  | .function loc k => congrArg (Expr.function loc) (hf.function_comp k)
  | .assign loc target value =>
    congrArg₂ (Expr.assign loc) (hf.expr_comp target) (hf.expr_comp value)
  | .unary loc op arg => congrArg (Expr.unary loc op) (hf.expr_comp arg)
  | .binary loc op left right =>
    congrArg₂ (Expr.binary loc op) (hf.expr_comp left) (hf.expr_comp right)
  | .conditional loc test yes no => by
    have htest := hf.expr_comp test
    have hyes := hf.expr_comp yes
    have hno := hf.expr_comp no
    simp only [Expr.mapLiterals, htest, hyes, hno]
  | .unmodelled _ _ => rfl

theorem exprs_comp (hf : LeavesValues f) : (es : List Expr) →
    mapExprs g (mapExprs f es) = mapExprs (g ∘ f) es
  | [] => rfl
  | e :: es => congrArg₂ List.cons (hf.expr_comp e) (hf.exprs_comp es)

theorem values_comp (hf : LeavesValues f) : (entries : List Entry) →
    mapValues g (mapValues f entries) = mapValues (g ∘ f) entries
  | [] => rfl
  | .mk kind value loc comments :: entries =>
    congrArg₂ List.cons (congrArg (Entry.mk kind · loc comments) (hf.expr_comp value))
      (hf.values_comp entries)

theorem function_comp (hf : LeavesValues f) : (k : FunctionLit) →
    (k.mapLiterals f).mapLiterals g = k.mapLiterals (g ∘ f)
  | .mk name params body =>
    congrArg₂ (FunctionLit.mk name) (hf.params_comp params) (hf.body_comp body)

theorem params_comp (hf : LeavesValues f) : (params : List Param) →
    mapParams g (mapParams f params) = mapParams (g ∘ f) params
  | [] => rfl
  | .mk binding default rest :: params =>
    congrArg₂ List.cons (congrArg (Param.mk binding · rest) (hf.option_comp default))
      (hf.params_comp params)

theorem option_comp (hf : LeavesValues f) : (e : Option Expr) →
    mapOption g (mapOption f e) = mapOption (g ∘ f) e
  | none => rfl
  | some e => congrArg some (hf.expr_comp e)

theorem body_comp (hf : LeavesValues f) : (b : FunctionBody) →
    (b.mapLiterals f).mapLiterals g = b.mapLiterals (g ∘ f)
  | .expr e => congrArg FunctionBody.expr (hf.expr_comp e)
  | .block ss => congrArg FunctionBody.block (hf.statements_comp ss)

theorem statements_comp (hf : LeavesValues f) : (ss : List BodyStatement) →
    mapBody g (mapBody f ss) = mapBody (g ∘ f) ss
  | [] => rfl
  | .declare ds :: ss =>
    congrArg₂ List.cons (congrArg BodyStatement.declare (hf.declarators_comp ds))
      (hf.statements_comp ss)
  | .returns e :: ss =>
    congrArg₂ List.cons (congrArg BodyStatement.returns (hf.option_comp e)) (hf.statements_comp ss)
  | .other :: ss => congrArg (List.cons BodyStatement.other) (hf.statements_comp ss)

theorem declarators_comp (hf : LeavesValues f) : (ds : List Declarator) →
    mapDeclarators g (mapDeclarators f ds) = mapDeclarators (g ∘ f) ds
  | [] => rfl
  | .mk binding init :: ds =>
    congrArg₂ List.cons (congrArg (Declarator.mk binding) (hf.option_comp init))
      (hf.declarators_comp ds)
end

theorem statement_comp (hf : LeavesValues f) (s : Statement) :
    (s.mapLiterals f).mapLiterals g = s.mapLiterals (g ∘ f) := by
  obtain ⟨kind, loc, comments⟩ := s
  refine congrArg (Statement.mk · loc comments) ?_
  cases kind with
  | declare exported ds => exact congrArg (StatementKind.declare exported) (hf.declarators_comp ds)
  | expression e => exact congrArg StatementKind.expression (hf.expr_comp e)
  | exportDefault e => exact congrArg StatementKind.exportDefault (hf.expr_comp e)
  | imports source bindings => rfl
  | exportNames names => rfl
  | other => rfl

theorem program_comp (hf : LeavesValues f) (p : Program) :
    (p.mapLiterals f).mapLiterals g = p.mapLiterals (g ∘ f) := by
  simp only [Program.mapLiterals, List.map_map]
  exact congrArg (Program.mk p.source) (List.map_congr_left fun s _ => hf.statement_comp s)

/-! ### The literals afterwards -/

theorem append_map {α β : Type} {k : α → β} {l m : List β} {l' m' : List α} (hl : l = l'.map k)
    (hm : m = m'.map k) : l ++ m = (l' ++ m').map k := by
  rw [hl, hm, List.map_append]

/-- A literal, if it is known of the literals inside. -/
theorem literal_literals (hf : LeavesValues f) {entries : List Entry}
    (h : entryLiterals (mapValues f entries) = (entryLiterals entries).map (changed f)) :
    f (mapValues f entries) :: entryLiterals (f (mapValues f entries)) =
      (entries :: entryLiterals entries).map (changed f) := by
  have hown : f (mapValues f entries) = changed f entries := by
    rw [mapValues_eq, hf.natural]
    rfl
  have hinner : entryLiterals (f (mapValues f entries)) = entryLiterals (mapValues f entries) := by
    rw [entryLiterals_eq, hf.values, ← entryLiterals_eq]
  rw [hinner, h, hown, List.map_cons]

mutual
/-- **The literals afterwards are the changed literals.** -/
theorem expr_literals (hf : LeavesValues f) : (e : Expr) →
    (e.mapLiterals f).literals = e.literals.map (changed f)
  | .lit _ _ => rfl
  | .regex _ _ _ => rfl
  | .template _ _ es => hf.exprs_literals es
  | .ident _ _ => rfl
  | .object _ entries => hf.literal_literals (hf.values_literals entries)
  | .array _ entries => hf.literal_literals (hf.values_literals entries)
  | .call _ _ callee args => append_map (hf.expr_literals callee) (hf.exprs_literals args)
  | .member _ object _ => hf.expr_literals object
  | .function _ k => hf.function_literals k
  | .assign _ target value => append_map (hf.expr_literals target) (hf.expr_literals value)
  | .unary _ _ arg => hf.expr_literals arg
  | .binary _ _ left right => append_map (hf.expr_literals left) (hf.expr_literals right)
  | .conditional _ test yes no =>
    append_map (append_map (hf.expr_literals test) (hf.expr_literals yes)) (hf.expr_literals no)
  | .unmodelled _ _ => rfl

theorem exprs_literals (hf : LeavesValues f) : (es : List Expr) →
    exprLiterals (mapExprs f es) = (exprLiterals es).map (changed f)
  | [] => rfl
  | e :: es => append_map (hf.expr_literals e) (hf.exprs_literals es)

theorem values_literals (hf : LeavesValues f) : (entries : List Entry) →
    entryLiterals (mapValues f entries) = (entryLiterals entries).map (changed f)
  | [] => rfl
  | .mk _ value _ _ :: entries => append_map (hf.expr_literals value) (hf.values_literals entries)

theorem function_literals (hf : LeavesValues f) : (k : FunctionLit) →
    (k.mapLiterals f).literals = k.literals.map (changed f)
  | .mk _ params body => append_map (hf.params_literals params) (hf.body_literals body)

theorem params_literals (hf : LeavesValues f) : (params : List Param) →
    paramLiterals (mapParams f params) = (paramLiterals params).map (changed f)
  | [] => rfl
  | .mk _ default _ :: params => append_map (hf.option_literals default) (hf.params_literals params)

theorem option_literals (hf : LeavesValues f) : (e : Option Expr) →
    optionLiterals (mapOption f e) = (optionLiterals e).map (changed f)
  | none => rfl
  | some e => hf.expr_literals e

theorem body_literals (hf : LeavesValues f) : (b : FunctionBody) →
    (b.mapLiterals f).literals = b.literals.map (changed f)
  | .expr e => hf.expr_literals e
  | .block ss => hf.statements_literals ss

theorem statements_literals (hf : LeavesValues f) : (ss : List BodyStatement) →
    bodyLiterals (mapBody f ss) = (bodyLiterals ss).map (changed f)
  | [] => rfl
  | .declare ds :: ss => append_map (hf.declarators_literals ds) (hf.statements_literals ss)
  | .returns e :: ss => append_map (hf.option_literals e) (hf.statements_literals ss)
  | .other :: ss => hf.statements_literals ss

theorem declarators_literals (hf : LeavesValues f) : (ds : List Declarator) →
    declaratorLiterals (mapDeclarators f ds) = (declaratorLiterals ds).map (changed f)
  | [] => rfl
  | .mk _ init :: ds => append_map (hf.option_literals init) (hf.declarators_literals ds)
end

theorem statement_literals (hf : LeavesValues f) (s : Statement) :
    (s.mapLiterals f).literals = s.literals.map (changed f) := by
  obtain ⟨kind, loc, comments⟩ := s
  cases kind with
  | declare exported ds => exact hf.declarators_literals ds
  | expression e => exact hf.expr_literals e
  | exportDefault e => exact hf.expr_literals e
  | imports source bindings => rfl
  | exportNames names => rfl
  | other => rfl

theorem program_literals (hf : LeavesValues f) (p : Program) :
    (p.mapLiterals f).literals = p.literals.map (changed f) := by
  simp only [Program.literals, Program.mapLiterals, List.flatMap_map, List.map_flatMap]
  exact List.flatMap_congr fun s _ => hf.statement_literals s

end LeavesValues

/-! ### Reattaching is such a change -/

mutual
theorem Expr.reattach_eq : (e : Expr) → e.reattach = e.mapLiterals reattachSiblings
  | .lit _ _ => rfl
  | .regex _ _ _ => rfl
  | .template loc chunks es => congrArg (Expr.template loc chunks) (reattachExprs_eq es)
  | .ident _ _ => rfl
  | .object loc entries =>
    congrArg (Expr.object loc <| reattachSiblings ·) (reattachValues_eq entries)
  | .array loc entries =>
    congrArg (Expr.array loc <| reattachSiblings ·) (reattachValues_eq entries)
  | .call loc constructs callee args =>
    congrArg₂ (Expr.call loc constructs) (Expr.reattach_eq callee) (reattachExprs_eq args)
  | .member loc object property => congrArg (Expr.member loc · property) (Expr.reattach_eq object)
  | .function loc k => congrArg (Expr.function loc) (FunctionLit.reattach_eq k)
  | .assign loc target value =>
    congrArg₂ (Expr.assign loc) (Expr.reattach_eq target) (Expr.reattach_eq value)
  | .unary loc op arg => congrArg (Expr.unary loc op) (Expr.reattach_eq arg)
  | .binary loc op left right =>
    congrArg₂ (Expr.binary loc op) (Expr.reattach_eq left) (Expr.reattach_eq right)
  | .conditional loc test yes no => by
    have htest := Expr.reattach_eq test
    have hyes := Expr.reattach_eq yes
    have hno := Expr.reattach_eq no
    simp only [Expr.reattach, Expr.mapLiterals, htest, hyes, hno]
  | .unmodelled _ _ => rfl

theorem reattachExprs_eq : (es : List Expr) → reattachExprs es = mapExprs reattachSiblings es
  | [] => rfl
  | e :: es => congrArg₂ List.cons (Expr.reattach_eq e) (reattachExprs_eq es)

theorem reattachValues_eq : (entries : List Entry) →
    reattachValues entries = mapValues reattachSiblings entries
  | [] => rfl
  | .mk kind value loc comments :: entries =>
    congrArg₂ List.cons (congrArg (Entry.mk kind · loc comments) (Expr.reattach_eq value))
      (reattachValues_eq entries)

theorem FunctionLit.reattach_eq : (k : FunctionLit) → k.reattach = k.mapLiterals reattachSiblings
  | .mk name params body =>
    congrArg₂ (FunctionLit.mk name) (reattachParams_eq params) (FunctionBody.reattach_eq body)

theorem reattachParams_eq : (params : List Param) →
    reattachParams params = mapParams reattachSiblings params
  | [] => rfl
  | .mk binding default rest :: params =>
    congrArg₂ List.cons (congrArg (Param.mk binding · rest) (reattach?_eq default))
      (reattachParams_eq params)

theorem reattach?_eq : (e : Option Expr) → reattach? e = mapOption reattachSiblings e
  | none => rfl
  | some e => congrArg some (Expr.reattach_eq e)

theorem FunctionBody.reattach_eq : (b : FunctionBody) →
    b.reattach = b.mapLiterals reattachSiblings
  | .expr e => congrArg FunctionBody.expr (Expr.reattach_eq e)
  | .block ss => congrArg FunctionBody.block (reattachBody_eq ss)

theorem reattachBody_eq : (ss : List BodyStatement) →
    reattachBody ss = mapBody reattachSiblings ss
  | [] => rfl
  | .declare ds :: ss =>
    congrArg₂ List.cons (congrArg BodyStatement.declare (reattachDeclarators_eq ds))
      (reattachBody_eq ss)
  | .returns e :: ss =>
    congrArg₂ List.cons (congrArg BodyStatement.returns (reattach?_eq e)) (reattachBody_eq ss)
  | .other :: ss => congrArg (List.cons BodyStatement.other) (reattachBody_eq ss)

theorem reattachDeclarators_eq : (ds : List Declarator) →
    reattachDeclarators ds = mapDeclarators reattachSiblings ds
  | [] => rfl
  | .mk binding init :: ds =>
    congrArg₂ List.cons (congrArg (Declarator.mk binding) (reattach?_eq init))
      (reattachDeclarators_eq ds)
end

theorem Statement.reattach_eq (s : Statement) : s.reattach = s.mapLiterals reattachSiblings := by
  obtain ⟨kind, loc, comments⟩ := s
  refine congrArg (Statement.mk · loc comments) ?_
  cases kind with
  | declare exported ds =>
    exact congrArg (StatementKind.declare exported) (reattachDeclarators_eq ds)
  | expression e => exact congrArg StatementKind.expression e.reattach_eq
  | exportDefault e => exact congrArg StatementKind.exportDefault e.reattach_eq
  | imports source bindings => rfl
  | exportNames names => rfl
  | other => rfl

theorem Program.reattach_eq (p : Program) : p.reattach = p.mapLiterals reattachSiblings :=
  congrArg (Program.mk p.source) (List.map_congr_left fun s _ => s.reattach_eq)

/-! ### Between neighbours -/

namespace Entry

@[simp] theorem withComments_comments (e : Entry) : e.withComments e.comments = e := by
  cases e
  rfl

@[simp] theorem kind_mapValue (k : Expr → Expr) (e : Entry) : (e.mapValue k).kind = e.kind := by
  cases e
  rfl

@[simp] theorem loc_mapValue (k : Expr → Expr) (e : Entry) : (e.mapValue k).loc = e.loc := by
  cases e
  rfl

@[simp] theorem comments_mapValue (k : Expr → Expr) (e : Entry) :
    (e.mapValue k).comments = e.comments := by
  cases e
  rfl

@[simp] theorem owns_mapValue (k : Expr → Expr) (e : Entry) : (e.mapValue k).owns = e.owns := by
  funext c
  rw [owns, owns, loc_mapValue]

theorem withComments_mapValue (k : Expr → Expr) (e : Entry) (comments : Comments) :
    (e.mapValue k).withComments comments = (e.withComments comments).mapValue k := by
  cases e
  rfl

end Entry

theorem Entry.owns_iff {e : Entry} {c : Comment} :
    e.owns c = true ↔ c.kind = .line ∧ c.line = e.loc.startLine := by
  simp [Entry.owns]

/-- No entry has a line comment in front of it that stands on the line where the entry before it
starts. -/
def Tidy (entries : List Entry) : Prop :=
  entries.IsChain fun e next =>
    ∀ c ∈ next.comments.leading, ¬(c.kind = .line ∧ c.line = e.loc.startLine)

/-- Comments are dealt out into two lists, and keep their order in both. -/
structure Deals (whole given kept : List Comment) : Prop where
  perm : (given ++ kept).Perm whole
  given : given.Sublist whole
  kept : kept.Sublist whole

/-- **Comments are handed back.** Each entry keeps some of the comments in front of it and hands the
others to the entry before, which appends them to the comments behind it; these are line comments on
its own first line. The comments that the first entry hands back are given. -/
inductive HandsBack : List Comment → List Entry → List Entry → Prop
  | nil : HandsBack [] [] []
  | cons {given kept received : List Comment} {entry entry' : Entry} {rest rest' : List Entry}
    (kind : entry'.kind = entry.kind) (loc : entry'.loc = entry.loc)
    (dealt : Deals entry.comments.leading given kept)
    (own : ∀ c ∈ received, c.kind = .line ∧ c.line = entry.loc.startLine)
    (comments : entry'.comments = ⟨kept, entry.comments.trailing ++ received⟩)
    (next : HandsBack received rest rest') :
    HandsBack given (entry :: rest) (entry' :: rest')

/-- All comments of an entry. -/
def Entry.allComments (e : Entry) : List Comment := e.comments.leading ++ e.comments.trailing

/-- Nothing is lost, and nothing is there twice. -/
theorem HandsBack.perm {given : List Comment} {entries entries' : List Entry}
    (h : HandsBack given entries entries') :
    (given ++ entries'.flatMap Entry.allComments).Perm (entries.flatMap Entry.allComments) := by
  induction h with
  | nil => exact .refl []
  | @cons given kept received entry entry' rest rest' _ _ dealt _ comments _ ih =>
    rw [List.flatMap_cons, List.flatMap_cons, Entry.allComments, Entry.allComments, comments]
    simp only [List.append_assoc]
    rw [← List.append_assoc]
    exact dealt.perm.append (ih.append_left _)

theorem HandsBack.map {given : List Comment} {entries entries' : List Entry}
    (h : HandsBack given entries entries') (k : Expr → Expr) :
    HandsBack given entries (entries'.map (Entry.mapValue k)) := by
  induction h with
  | nil => exact .nil
  | cons kind loc dealt own comments _ ih =>
    exact .cons (by rwa [Entry.kind_mapValue]) (by rwa [Entry.loc_mapValue]) dealt own
      (by rwa [Entry.comments_mapValue]) ih

theorem Tidy.map {entries : List Entry} (h : Tidy entries) (k : Expr → Expr) :
    Tidy (entries.map (Entry.mapValue k)) := by
  refine List.isChain_map_of_isChain _ (fun e next hnext => ?_) h
  rwa [Entry.comments_mapValue, Entry.loc_mapValue]

theorem deals_filter (p : Comment → Bool) (cs : List Comment) :
    Deals cs (cs.filter p) (cs.filter (!p ·)) :=
  ⟨List.filter_append_perm p cs, List.filter_sublist, List.filter_sublist⟩

/-- The induction is on the entries that are still to come. An entry that has already handed back
some of its comments is compared with what it was before. -/
theorem reattachAfter_handsBack {given kept : List Comment} {entry : Entry}
    (h : Deals entry.comments.leading given kept) (rest : List Entry) :
    HandsBack given (entry :: rest)
      (reattachAfter (entry.withComments ⟨kept, entry.comments.trailing⟩) rest) := by
  induction rest generalizing given kept entry with
  | nil =>
    refine .cons rfl rfl h (fun c hc => absurd hc List.not_mem_nil) ?_ .nil
    rw [List.append_nil]
    rfl
  | cons next rest ih =>
    have hnext := ih (deals_filter entry.owns next.comments.leading)
    refine .cons rfl rfl h (fun c hc => ?_) rfl hnext
    exact Entry.owns_iff.mp (List.of_mem_filter hc)

theorem reattachSiblings_handsBack (entries : List Entry) :
    HandsBack [] entries (reattachSiblings entries) := by
  cases entries with
  | nil => exact .nil
  | cons entry rest =>
    have hall : Deals entry.comments.leading [] entry.comments.leading :=
      ⟨.refl _, List.nil_sublist _, List.Sublist.refl _⟩
    have hback := reattachAfter_handsBack hall rest
    rwa [entry.withComments_comments] at hback

-- A line comment behind `a` moves to `a`. A block comment on the same line stays in front of `b`.
example (value : Expr) :
    let loc (line : Nat) : Loc := ⟨0, 0, line, line⟩
    let behind : Comment := ⟨.line, "of a", 0, 1⟩
    let block : Comment := ⟨.block, "of b", 0, 1⟩
    reattachSiblings [.mk (.keyed "a") value (loc 1) .none,
        .mk (.keyed "b") value (loc 2) ⟨[behind, block], []⟩] =
      [.mk (.keyed "a") value (loc 1) ⟨[], [behind]⟩,
        .mk (.keyed "b") value (loc 2) ⟨[block], []⟩] := rfl

/-- The first entry stays the first, and may only get more comments behind it. -/
theorem reattachAfter_eq_cons (entry : Entry) (rest : List Entry) :
    ∃ trailing tail, reattachAfter entry rest =
      entry.withComments ⟨entry.comments.leading, trailing⟩ :: tail := by
  cases rest with
  | nil => exact ⟨entry.comments.trailing, [], by rw [entry.withComments_comments]; rfl⟩
  | cons next rest => exact ⟨_, _, rfl⟩

theorem reattachAfter_tidy (entry : Entry) (rest : List Entry) :
    Tidy (reattachAfter entry rest) := by
  induction rest generalizing entry with
  | nil => exact .singleton _
  | cons next rest ih =>
    have hrest := ih (next.withComments
      { next.comments with leading := next.comments.leading.filter (!entry.owns ·) })
    rw [reattachAfter]
    obtain ⟨trailing, tail, htail⟩ := reattachAfter_eq_cons (next.withComments
      { next.comments with leading := next.comments.leading.filter (!entry.owns ·) }) rest
    rw [htail] at hrest ⊢
    refine List.isChain_cons_cons.mpr ⟨fun c hc hown => ?_, hrest⟩
    have hnot : entry.owns c = false := by simpa using List.of_mem_filter hc
    have howns : entry.owns c = true := Entry.owns_iff.mpr hown
    rw [howns] at hnot
    exact absurd hnot nofun

theorem reattachSiblings_tidy (entries : List Entry) : Tidy (reattachSiblings entries) := by
  cases entries with
  | nil => exact .nil
  | cons entry rest => exact reattachAfter_tidy entry rest

/-- Where everything is tidy there is nothing to do. -/
theorem Tidy.reattachAfter_eq {entry : Entry} {rest : List Entry}
    (h : Tidy (entry :: rest)) : reattachAfter entry rest = entry :: rest := by
  induction rest generalizing entry with
  | nil => rfl
  | cons next rest ih =>
    obtain ⟨hnext, hrest⟩ := List.isChain_cons_cons.mp h
    have hmoved : next.comments.leading.filter entry.owns = [] :=
      List.filter_eq_nil_iff.mpr fun c hc hown => hnext c hc (Entry.owns_iff.mp hown)
    have hkept : next.comments.leading.filter (!entry.owns ·) = next.comments.leading :=
      List.filter_eq_self.mpr fun c hc => by
        simpa using fun hown => hnext c hc (Entry.owns_iff.mp hown)
    rw [reattachAfter]
    simp only [hmoved, hkept, List.append_nil]
    change entry.withComments entry.comments ::
      reattachAfter (next.withComments next.comments) rest = _
    rw [entry.withComments_comments, next.withComments_comments, ih hrest]

theorem Tidy.reattachSiblings_eq {entries : List Entry} (h : Tidy entries) :
    reattachSiblings entries = entries := by
  cases entries with
  | nil => rfl
  | cons entry rest => exact h.reattachAfter_eq

/-! ### The values of entries -/

theorem reattachAfter_values (entry : Entry) (rest : List Entry) :
    (reattachAfter entry rest).map Entry.value = (entry :: rest).map Entry.value := by
  induction rest generalizing entry with
  | nil => rfl
  | cons next rest ih =>
    rw [reattachAfter, List.map_cons, ih]
    rfl

theorem reattachAfter_mapValue (k : Expr → Expr) (entry : Entry) (rest : List Entry) :
    reattachAfter (entry.mapValue k) (rest.map (Entry.mapValue k)) =
      (reattachAfter entry rest).map (Entry.mapValue k) := by
  induction rest generalizing entry with
  | nil => rfl
  | cons next rest ih =>
    rw [List.map_cons, reattachAfter, reattachAfter, List.map_cons, ← ih]
    simp only [Entry.comments_mapValue, Entry.owns_mapValue, Entry.withComments_mapValue]

theorem leavesValues_reattachSiblings : LeavesValues reattachSiblings where
  values entries := by
    cases entries with
    | nil => rfl
    | cons entry rest => exact reattachAfter_values entry rest
  natural k entries := by
    cases entries with
    | nil => rfl
    | cons entry rest => exact reattachAfter_mapValue k entry rest

/-! ### Whole programs -/

theorem Program.literals_reattach (p : Program) :
    p.reattach.literals = p.literals.map (changed reattachSiblings) := by
  rw [p.reattach_eq, leavesValues_reattachSiblings.program_literals]

/-- **Reattaching reaches its goal**: in no literal is there a comment left to be moved, and doing
it again changes nothing. -/
theorem reattach_settles (p : Program) :
    (∀ entries ∈ p.reattach.literals, Tidy entries) ∧ p.reattach.reattach = p.reattach := by
  constructor
  · intro entries hentries
    rw [p.literals_reattach] at hentries
    obtain ⟨original, -, rfl⟩ := List.mem_map.mp hentries
    exact (reattachSiblings_tidy original).map _
  · have htwice : reattachSiblings ∘ reattachSiblings = reattachSiblings :=
      funext fun entries => (reattachSiblings_tidy entries).reattachSiblings_eq
    rw [p.reattach_eq, Program.reattach_eq, leavesValues_reattachSiblings.program_comp, htwice]

/-- An entry without its comments. -/
def Entry.bare (e : Entry) : Entry := e.withComments .none

/-- A program without the comments of the entries of its literals. All else is still there, the
comments of statements included. -/
def Program.bare (p : Program) : Program := p.mapLiterals (List.map Entry.bare)

theorem reattachAfter_bare (entry : Entry) (rest : List Entry) :
    (reattachAfter entry rest).map Entry.bare = (entry :: rest).map Entry.bare := by
  induction rest generalizing entry with
  | nil => rfl
  | cons next rest ih =>
    rw [reattachAfter, List.map_cons, ih]
    rfl

theorem reattachSiblings_bare (entries : List Entry) :
    (reattachSiblings entries).map Entry.bare = entries.map Entry.bare := by
  cases entries with
  | nil => rfl
  | cons entry rest => exact reattachAfter_bare entry rest

/-- **Reattaching only moves comments.** Without the comments of entries the program is the same. In
every literal, entries hand comments back to their neighbours, the first one none, so that all
comments are still there; none of them is there more often than before. -/
theorem reattach_only_hands_back (p : Program) :
    p.reattach.bare = p.bare ∧
      List.Forall₂ (fun entries entries' => HandsBack [] entries entries' ∧
          (entries'.flatMap Entry.allComments).Perm (entries.flatMap Entry.allComments))
        p.literals p.reattach.literals := by
  constructor
  · have hbare : List.map Entry.bare ∘ reattachSiblings = List.map Entry.bare :=
      funext reattachSiblings_bare
    rw [p.reattach_eq, Program.bare, leavesValues_reattachSiblings.program_comp, hbare]
    rfl
  · rw [p.literals_reattach, List.forall₂_map_right_iff, List.forall₂_same]
    intro entries _
    have hback := (reattachSiblings_handsBack entries).map (Expr.mapLiterals reattachSiblings)
    exact ⟨hback, hback.perm⟩

end SchemaDoc
