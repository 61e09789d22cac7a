import SchemaDoc.Proofs.Definitions
import SchemaDoc.Proofs.QuotedText

/-!
# Printed strings read back

A printed string is meant as a literal of a script. Written behind `const x =`, it should declare a
constant whose value is the string. It does so in a file of any language, for every string but those
that are put between backquotes and have a dollar sign with a brace behind it
(`printed_string_reads_back`). Between backquotes these two characters open a substitution, and the
printer does not escape them.

The tokens of such a file are known, since only the literal depends on the string, and how it is
read as a token is what `SchemaDoc.Proofs.QuotedText` says. From the tokens on, the file is followed
through the rules of the grammar, from the inside out: a literal in front of a semicolon
(`LiteralAt`) is read as itself at every level of expressions, since nothing that could continue it
is there, and the constant (`ConstantAt`) by the rules of declarations, statements and items. Each
rule is opened once and gives what the rule inside it gave.
-/

namespace SchemaDoc.Script

/-! ### Runs of parsers -/

/-- The state at a place, where the next token is read in some surroundings. -/
def State.resumed (around : Surroundings) (place : Cursor) (s : State) : State :=
  { token := (Token.next around place).1
    last := place.offset
    comments := (Token.next around place).2 ++ s.comments
    last_le := Token.le_next _ _ }

/-- The state behind the next token. -/
def State.taken (around : Surroundings) (s : State) : State := s.resumed around s.token.after

namespace Parser

variable {α β σ : Type} {c : Context} {s s' : State}

@[simp] theorem run_pure (a : α) : (pure a : Parser α).run c s = .ok a s := rfl

@[simp] theorem run_bind (p : Parser α) (f : α → Parser β) :
    (p >>= f).run c s =
      match p.run c s with
      | .ok a s => (f a).run c s
      | .error failure s => .error failure s := rfl

@[simp] theorem run_map (f : α → β) (p : Parser α) :
    (f <$> p).run c s =
      match p.run c s with
      | .ok a s => .ok (f a) s
      | .error failure s => .error failure s := rfl

@[simp] theorem run_ite (b : Prop) [Decidable b] (p q : Parser α) :
    (if b then p else q).run c s = if b then p.run c s else q.run c s :=
  apply_ite (fun p => p.run c s) b p q

@[simp] theorem run_look (f : Context → State → α) : (look f).run c s = .ok (f c s) s := rfl

@[simp] theorem run_read : (read : Parser Context).run c s = .ok c s := rfl

@[simp] theorem run_withReader (f : Context → Context) (p : Parser α) :
    (withReader f p : Parser α).run c s = p.run (f c) s := rfl

@[simp] theorem run_advance : advance.run c s = .ok () (s.taken c.surroundings) := rfl

@[simp] theorem run_peek : peek.run c s = .ok s.token s := rfl

@[simp] theorem run_kind : kind.run c s = .ok s.token.kind s := rfl

@[simp] theorem run_position : position.run c s = .ok s.token.lo s := rfl

@[simp] theorem run_newlineBefore : newlineBefore.run c s = .ok s.token.newlineBefore s := rfl

@[simp] theorem run_second : second.run c s = .ok (s.taken c.surroundings).token s := rfl

@[simp] theorem run_hasTypes : hasTypes.run c s = .ok c.language.types s := rfl

@[simp] theorem run_spanFrom (lo : Nat) : (spanFrom lo).run c s = .ok (.upTo lo s.last) s := rfl

@[simp] theorem run_isPunct (p : Punct) :
    (isPunct p).run c s = .ok (s.token.kind == .punct p) s := rfl

@[simp] theorem run_isWord (w : String) :
    (isWord w).run c s = .ok (s.token.kind == .name w false) s := rfl

theorem run_moveTo {place : Cursor} (h : s.token.lo ≤ place.offset) :
    (moveTo place).run c s = .ok () (s.resumed c.surroundings place) := if_pos h

theorem run_loop_done {step : σ → Parser (σ ⊕ β)} {n : Nat} {init : σ} {b : β} (hn : 0 < n)
    (h : (step init).run c s = .ok (.inr b) s') : (loop step n init).run c s = .ok b s' := by
  obtain ⟨n, rfl⟩ := Nat.exists_eq_succ_of_ne_zero (Nat.ne_of_gt hn)
  simp [loop, h]

/-- A loop that is over at its first step. -/
theorem run_iterate_done {step : σ → Parser (σ ⊕ β)} {init : σ} {b : β} (hlimit : 0 < c.limit)
    (h : (step init).run c s = .ok (.inr b) s') : (iterate init step).run c s = .ok b s' :=
  run_loop_done hlimit h

/-- A loop that is over at its second step. -/
theorem run_iterate_next {step : σ → Parser (σ ⊕ β)} {init : σ} {b : β} (next : σ) (s₁ : State)
    (hlimit : 1 < c.limit) (h : (step init).run c s = .ok (.inl next) s₁)
    (hnext : (step next).run c s₁ = .ok (.inr b) s') : (iterate init step).run c s = .ok b s' := by
  obtain ⟨n, hn⟩ := Nat.exists_eq_add_of_lt hlimit
  have hdone := run_loop_done (show 0 < 1 + n by omega) hnext
  simp [iterate, hn, loop, h, hdone]

end Parser

open SchemaDoc.Script.Parser SchemaDoc.Script.Grammar

/-! ### Literals -/

/-- A literal that has a text as its value: a string, or a template without substitutions. -/
inductive Spells (text : String) : Expr → Prop
  | string (span : Span) : Spells text (.string span (some text))
  | template (span : Span) : Spells text (.template span [text] [])

section Spells

variable {text : String} {e : Expr}

theorem Spells.isArrow (h : Spells text e) : e.isArrow = false := by
  cases h <;> rfl

theorem Spells.isOperation (h : Spells text e) : e.isOperation = false := by
  cases h <;> rfl

theorem Spells.references (h : Spells text e) : e.references = [] := by
  cases h <;> simp [Expr.references, exprReferences]

end Spells

/-- A literal stands at a state, with a semicolon behind it that ends the text. Whatever grammar the
rules inside it are read by, it is read as an operand. -/
structure LiteralAt (around : Surroundings) (text : String) (s : State) (e : Expr) (s' : State) :
    Prop where
  spells : Spells text e
  opens : (∃ v, s.token.kind = .string v) ∨ s.token.kind = .punct .backquote
  run_operand : ∀ (g : Grammar) (c : Context), 0 < c.limit → c.surroundings = around →
    (operand g).run c s = .ok e s'
  closes : s'.token.kind = .punct .semicolon
  ends : (s'.taken around).token.kind = .eof

namespace LiteralAt

variable {around : Surroundings} {text : String} {s s' : State} {e : Expr}
  (h : LiteralAt around text s e s')

include h

theorem joined_eq : s'.token.joined = s'.token := dif_neg (by simp [h.closes])

variable (g : Grammar) {c : Context} (hlimit : 0 < c.limit)

include hlimit

theorem run_chain (calls : Bool) : (chain g calls e).run c s' = .ok e s' :=
  run_iterate_done hlimit (by simp [chainStep, h.closes])

theorem run_operators (level : Nat) : (operators g e level).run c s' = .ok e s' :=
  run_iterate_done hlimit (by simp [assertion?, isAnyWord, h.closes, h.joined_eq, operator?])

variable (hc : c.surroundings = around)

include hc

theorem run_construct : (construct g).run c s = .ok e s' := by
  have hoperand := h.run_operand g c hlimit hc
  have hchain := h.run_chain g hlimit false
  obtain ⟨v, hopens⟩ | hopens := h.opens <;>
    simp [construct, hopens, acceptWord, hoperand, h.spells.isArrow, instantiated, h.closes, hchain]

theorem run_callChain : (callChain g).run c s = .ok e s' := by
  have hconstruct := h.run_construct g hlimit hc
  obtain ⟨v, hopens⟩ | hopens := h.opens <;>
    simp [callChain, hopens, hconstruct, h.spells.isArrow, callTypes?, atAngle, isAnyPunct,
      h.closes]

theorem run_unary : (unary g).run c s = .ok e s' := by
  have hcallChain := h.run_callChain g hlimit hc
  obtain ⟨v, hopens⟩ | hopens := h.opens <;>
    simp [unary, unaryOp?, hopens, hcallChain, h.spells.isArrow, isAnyPunct, h.closes]

theorem run_conditional (fuel : Nat) :
    (conditional (withFuel (fuel + 1))).run c s = .ok e s' := by
  have hunary := h.run_unary (withFuel fuel) hlimit hc
  have hoperators := h.run_operators (withFuel fuel) hlimit 0
  simp [conditional, binary, firstOperand, recover, withFuel, body, hunary, h.spells.isArrow,
    hoperators, h.closes]

/-- **A literal in front of a semicolon is an expression.** -/
theorem run_assign (fuel : Nat) : (withFuel (fuel + 2) .assign).run c s = .ok e s' := by
  have hconditional : ∀ c : Context, 0 < c.limit → c.surroundings = around →
      (conditional (withFuel (fuel + 1))).run c s = .ok e s' :=
    fun _ hlimit hc => h.run_conditional hlimit hc fuel
  show (assign (withFuel (fuel + 1))).run c s = .ok e s'
  obtain ⟨v, hopens⟩ | hopens := h.opens <;>
    simp [assign, startsGenericArrow, hopens, startsArrow, hconditional, hlimit, hc,
      h.spells.isArrow, h.spells.isOperation, assignRest, h.joined_eq, h.closes, compoundMarks]

end LiteralAt

/-! ### The constant -/

/-- The declaration of a constant `x` with a literal as its value stands at a state, and nothing
behind it. -/
structure ConstantAt (around : Surroundings) (text : String) (s : State) (e : Expr) (s' : State) :
    Prop where
  keyword : s.token.kind = .name "const" false
  declared : (s.taken around).token.kind = .name "x" false
  equals : ((s.taken around).taken around).token.kind = .punct .assign
  value : LiteralAt around text (((s.taken around).taken around).taken around) e s'

/-- What is declared by a constant `x` with a value. -/
def constant (e : Expr) : Statement := .declare [.mk (.ident "x") [] (some e)]

namespace ConstantAt

variable {around : Surroundings} {text : String} {s s' : State} {e : Expr}
  (h : ConstantAt around text s e s') {c : Context} (hc : c.surroundings = around)

include h hc

theorem run_target (fuel : Nat) :
    (withFuel (fuel + 1) (.target true)).run c (s.taken around) =
      .ok (.ident "x") ((s.taken around).taken around) := by
  have hname : refusesName c "x" = false := rfl
  show (target (withFuel fuel) true).run c (s.taken around) = _
  simp [target, h.declared, lexicalName, Parser.name, hname, hc]

variable (hlimit : 0 < c.limit)

include hlimit

theorem run_declarator (fuel : Nat) :
    (declarator (withFuel (fuel + 2)) "const" false).run c (s.taken around) =
      .ok (.mk (.ident "x") [] (some e)) s' := by
  have htarget := h.run_target hc (fuel + 1)
  have hassign := h.value.run_assign hlimit hc fuel
  simp [declarator, htarget, accept, h.equals, annotated, typeAfter, isAnyWord, hc, hassign]

theorem run_declarators (fuel : Nat) :
    (declarators (withFuel (fuel + 2)) "const" false).run c (s.taken around) =
      .ok [.mk (.ident "x") [] (some e)] s' := by
  have hdeclarator : ∀ c : Context, c.surroundings = around → 0 < c.limit →
      (declarator (withFuel (fuel + 2)) "const" false).run c (s.taken around) =
        .ok (.mk (.ident "x") [] (some e)) s' :=
    fun _ hc hlimit => h.run_declarator hc hlimit fuel
  simp only [declarators]
  refine run_iterate_done hlimit ?_
  simp [h.declared, allowingIn, hdeclarator, hc, hlimit, accept, h.value.closes]

theorem run_variableDeclaration (fuel : Nat) :
    (variableDeclaration (withFuel (fuel + 2))).run c s = .ok (constant e) (s'.taken around) := by
  have hdeclarators := h.run_declarators hc hlimit fuel
  simp [variableDeclaration, word, h.keyword, hc, hdeclarators, acceptEnd, accept, h.value.closes,
    constant]

theorem run_statement (fuel : Nat) :
    (withFuel (fuel + 3) (.statement true)).run c s = .ok (constant e) (s'.taken around) := by
  have hdeclaration : ∀ c : Context, c.surroundings = around → 0 < c.limit →
      (variableDeclaration (withFuel (fuel + 2))).run c s = .ok (constant e) (s'.taken around) :=
    fun _ hc hlimit => h.run_variableDeclaration hc hlimit fuel
  show (statement (withFuel (fuel + 2)) true).run c s = _
  simp [statement, h.keyword, allowingIn, withoutColon, typedStatement?, hc, h.declared,
    wordStatement?, hdeclaration, hlimit]

theorem run_item (fuel : Nat) :
    (item (withFuel (fuel + 3))).run c s =
      .ok ⟨.statement (constant e), .upTo s.token.lo (s'.taken around).last⟩ (s'.taken around) := by
  have hstatement := h.run_statement hc hlimit fuel
  simp [item, itemKind, startsImport, acceptWord, h.keyword, hstatement, constant]

omit hlimit in
/-- **The declaration is all that is read.** -/
theorem run_itemList (hlimit : 1 < c.limit) (fuel : Nat) :
    (itemList (withFuel (fuel + 3)) false).run c s =
      .ok [⟨.statement (constant e), .upTo s.token.lo (s'.taken around).last⟩]
        (s'.taken around) := by
  have hitem := h.run_item hc (Nat.lt_of_succ_lt hlimit) fuel
  refine run_iterate_next
    ([⟨.statement (constant e), .upTo s.token.lo (s'.taken around).last⟩], false)
    (s'.taken around) hlimit ?_ ?_
  · simp [h.keyword, startsImport, hitem]
  · simp [h.value.ends]

end ConstantAt

/-! ### The tokens -/

open Value (quotedBody backquote quoteFor)

variable (around : Surroundings)

theorem next_variable (cs : List Char) (o : Nat) :
    let t := (Token.next around ⟨' ' :: 'x' :: ' ' :: cs, o⟩).1
    t.kind = .name "x" false ∧ t.after = ⟨' ' :: cs, o + 2⟩ :=
  ⟨rfl, rfl⟩

theorem next_equals (cs : List Char) (o : Nat) :
    let t := (Token.next around ⟨' ' :: '=' :: ' ' :: cs, o⟩).1
    t.kind = .punct .assign ∧ t.after = ⟨' ' :: cs, o + 2⟩ :=
  ⟨rfl, rfl⟩

/-- A semicolon at the end of the text is a token, and there is none behind it. -/
theorem resumed_at_semicolon {place : Cursor} (hplace : place.rest = [';']) (s : State) :
    (s.resumed around place).token.kind = .punct .semicolon ∧
      ((s.resumed around place).taken around).token.kind = .eof := by
  obtain ⟨rest, o⟩ := place
  obtain rfl : rest = [';'] := hplace
  exact ⟨rfl, rfl⟩

theorem next_string {quote : Char} (hquote : quote = '\'' ∨ quote = '"') (cs rest : List Char)
    (o : Nat) :
    let t := (Token.next around ⟨' ' :: quote :: (quotedBody quote cs ++ quote :: rest), o⟩).1
    t.kind = .string (some (String.ofList cs)) ∧ t.after.rest = rest := by
  have hstring := Value.string_printed (hquote.imp_right .inl) cs rest
  -- The blank is passed over, and the quote opens a string, whichever of the two it is.
  have hlexeme : (Token.next around
        ⟨' ' :: quote :: (quotedBody quote cs ++ quote :: rest), o⟩).1.kind =
          (Token.string quote (quotedBody quote cs ++ quote :: rest)).kind.shift (o + 1) ∧
      (Token.next around
        ⟨' ' :: quote :: (quotedBody quote cs ++ quote :: rest), o⟩).1.after.rest =
          (Token.string quote (quotedBody quote cs ++ quote :: rest)).rest := by
    obtain rfl | rfl := hquote <;> exact ⟨rfl, rfl⟩
  rw [hstring] at hlexeme
  exact hlexeme

/-- **A text between single or double quotes is read as a string.** -/
theorem literalAt_string {quote : Char} (hquote : quote = '\'' ∨ quote = '"') {cs : List Char}
    {s : State} {o : Nat} (htoken : s.token =
      (Token.next around ⟨' ' :: quote :: (quotedBody quote cs ++ quote :: [';']), o⟩).1) :
    ∃ e s', LiteralAt around (String.ofList cs) s e s' := by
  obtain ⟨hkind, hrest⟩ := next_string around hquote cs [';'] o
  rw [← htoken] at hkind hrest
  obtain ⟨hcloses, hends⟩ := resumed_at_semicolon around hrest s
  refine ⟨.string ⟨s.token.lo, s.token.hi⟩ (some (String.ofList cs)), s.taken around, .string _,
    .inl ⟨_, hkind⟩, fun g c _ hc => ?_, hcloses, hends⟩
  simp [operand, hkind, hc]

/-- **A text between backquotes is read as a template without substitutions,** if no dollar sign in
it has a brace behind it. -/
theorem literalAt_template {cs : List Char} (hcs : ¬['$', '\x7b'] <:+: cs) {s : State} {o : Nat}
    (htoken : s.token = (Token.next around
      ⟨' ' :: backquote :: (quotedBody backquote cs ++ backquote :: [';']), o⟩).1) :
    ∃ e s', LiteralAt around (String.ofList cs) s e s' := by
  have hkind : s.token.kind = .punct .backquote := by rw [htoken]; rfl
  have hrest : s.token.after.rest = quotedBody backquote cs ++ backquote :: [';'] := by
    rw [htoken]; rfl
  obtain ⟨place, hchunk, hplace, hforward⟩ : ∃ place : Cursor,
      s.token.chunk? = some (quotedBody backquote cs, true, place) ∧ place.rest = [';'] ∧
        s.token.lo ≤ place.offset := by
    refine ⟨_, by rw [Token.chunk?, hrest, Value.untilSubstitution_printed hcs]; rfl, rfl, ?_⟩
    exact Nat.le_add_right_of_le (Nat.le_add_right_of_le s.token.lo_le_hi)
  have htext := Value.chunkText_printed (.inr (.inr rfl)) cs
  obtain ⟨hcloses, hends⟩ := resumed_at_semicolon around hplace s
  refine ⟨.template (.upTo s.token.lo place.offset) [String.ofList cs] [], s.resumed around place,
    .template _, .inr hkind, fun g c hlimit hc => ?_, hcloses, hends⟩
  have hparts : (templateParts g false).run c s =
      .ok ([String.ofList cs], []) (s.resumed around place) :=
    run_iterate_done hlimit (by simp [chunk, hchunk, htext, run_moveTo hforward, hc])
  simp [operand, hkind, hparts, State.resumed]

/-! ### The program -/

/-- A string whose printed form holds a substitution: it is put between backquotes, and a dollar
sign in it has a brace behind it. -/
def HoldsSubstitution (text : String) : Prop :=
  quoteFor text.toList = backquote ∧ ['$', '\x7b'] <:+: text.toList

instance (text : String) : Decidable (HoldsSubstitution text) :=
  inferInstanceAs (Decidable (quoteFor text.toList = backquote ∧ ['$', '\x7b'] <:+: text.toList))

/-- The program that declares a printed string as a constant. -/
def declaring (text : String) : String := "const x = " ++ (Value.str text).print ++ ";"

/-- The printed string and the semicolon of the program. -/
def literalPart (text : String) : List Char :=
  let quote := quoteFor text.toList
  quote :: (quotedBody quote text.toList ++ quote :: [';'])

theorem declaring_toList (text : String) :
    (declaring text).toList =
      "const".toList ++ ' ' :: 'x' :: ' ' :: '=' :: ' ' :: literalPart text := by
  simp [declaring, Value.print, Value.quoted_toList, literalPart]

/-- **The printed string is a literal,** where it is the next token. -/
theorem exists_literalAt {text : String} (htext : ¬HoldsSubstitution text) {s : State} {o : Nat}
    (htoken : s.token = (Token.next around ⟨' ' :: literalPart text, o⟩).1) :
    ∃ e s', LiteralAt around text s e s' := by
  rw [← String.ofList_toList (s := text)]
  obtain hquote | hquote | hquote := Value.isQuote_quoteFor text.toList
  · exact literalAt_string around (.inl hquote) htoken
  · exact literalAt_string around (.inr hquote) htoken
  · simp only [literalPart, hquote] at htoken
    exact literalAt_template around (fun hinfix => htext ⟨hquote, hinfix⟩) htoken

/-- **The tokens of the program are those of a constant.** -/
theorem exists_constantAt {text : String} (htext : ¬HoldsSubstitution text) {s : State} {o : Nat}
    (hkeyword : s.token.kind = .name "const" false)
    (hafter : s.token.after = ⟨' ' :: 'x' :: ' ' :: '=' :: ' ' :: literalPart text, o⟩) :
    ∃ e s', ConstantAt around text s e s' := by
  -- From each token to the one behind it.
  have hnext (s : State) {place : Cursor} (h : s.token.after = place) :
      (s.taken around).token = (Token.next around place).1 := by
    rw [← h]
    rfl
  have hvariable := next_variable around ('=' :: ' ' :: literalPart text) o
  rw [← hnext s hafter] at hvariable
  have hequals := next_equals around (literalPart text) (o + 2)
  rw [← hnext (s.taken around) hvariable.2] at hequals
  obtain ⟨e, s', hliteral⟩ :=
    exists_literalAt around htext (hnext ((s.taken around).taken around) hequals.2)
  exact ⟨e, s', hkeyword, hvariable.1, hequals.1, hliteral⟩

/-! ### The file -/

/-- The surroundings of a file that is neither a module nor strict code. -/
def outermost : Surroundings :=
  { strict := false, isModule := false, inAsync := false, inGenerator := false,
    inStaticBlock := false }

/-- The context in which such a file is read. -/
def outerContext (language : Language) (chars : List Char) : Context :=
  { language
    limit := chars.length + 2
    surroundings := outermost
    inAllowed := true
    inParameters := false
    superAllowed := false
    ambient := false
    inLoopHead := false
    inConditional := false
    colonExpected := false
    conditionalTypes := true
    arrowAt := none }

/-- The state at the start of a file. -/
def firstState (chars : List Char) : State :=
  { token := (Token.first outermost ⟨chars, 0⟩).1
    last := 0
    comments := (Token.first outermost ⟨chars, 0⟩).2
    last_le := Nat.zero_le _ }

/-- A file without a line for an interpreter and without a directive is read from its first
character on, as it is. -/
theorem parseText_eq {language : Language} {chars : List Char} {items : List Item} {finish : State}
    (hplace : afterInterpreter ⟨chars, 0⟩ = ⟨chars, 0⟩)
    (hdirective : (firstState chars).token.isStrictDirective = false)
    (hrun : (itemList (withFuel (fuelFor chars.length)) false).run (outerContext language chars)
      (firstState chars) = .ok items finish) :
    parseText language chars = .ok ⟨⟨items⟩, finish.comments.reverse⟩ := by
  simp only [firstState, outermost, outerContext] at hdirective hrun
  simp only [parseText, hplace, hdirective, hrun]

/-- **The program is read as the declaration of a literal.** -/
theorem parseText_declaring (language : Language) {text : String}
    (htext : ¬HoldsSubstitution text) :
    ∃ e span comments, Spells text e ∧ parseText language (declaring text).toList =
      .ok ⟨⟨[⟨.statement (constant e), span⟩]⟩, comments⟩ := by
  have hplace : afterInterpreter ⟨(declaring text).toList, 0⟩ = ⟨(declaring text).toList, 0⟩ := by
    rw [declaring_toList]
    rfl
  have hkeyword : (firstState (declaring text).toList).token.kind = .name "const" false := by
    rw [declaring_toList]
    rfl
  have hafter : (firstState (declaring text).toList).token.after =
      ⟨' ' :: 'x' :: ' ' :: '=' :: ' ' :: literalPart text, 5⟩ := by
    rw [declaring_toList]
    rfl
  have hdirective : (firstState (declaring text).toList).token.isStrictDirective = false := by
    simp [Token.isStrictDirective, hkeyword]
  obtain ⟨e, s', h⟩ := exists_constantAt outermost htext hkeyword hafter
  have hlimit : 1 < (outerContext language (declaring text).toList).limit :=
    Nat.lt_add_left _ (by decide)
  have hfuel (n : Nat) : fuelFor n = 8 * n + 61 + 3 := rfl
  have hrun := h.run_itemList rfl hlimit (8 * (declaring text).toList.length + 61)
  rw [← hfuel] at hrun
  exact ⟨e, _, _, h.value.spells, parseText_eq hplace hdirective hrun⟩

end SchemaDoc.Script

namespace SchemaDoc.Document

open Script (HoldsSubstitution declaring Spells constant)

/-! ### The module -/

/-- The value of a literal, where it stands. -/
theorem exists_definition (layout : Layout) {text : String} {e : Script.Expr} (h : Spells text e) :
    ∃ loc, (layout.expr e).reattach = .lit loc (.string text) ∨
      (layout.expr e).reattach = .template loc [text] [] := by
  cases h with
  | string span => exact ⟨_, .inl rfl⟩
  | template span => exact ⟨_, .inr rfl⟩

theorem references_constant {text : String} {e : Script.Expr} (h : Spells text e)
    (span : Script.Span) : Script.File.references ⟨[⟨.statement (constant e), span⟩]⟩ = [] := by
  simp [Script.File.references, Script.Item.references, constant, Script.Statement.references,
    Script.declaratorReferences, Script.Pattern.references, Script.optionReferences, h.references]

/-- A module that mentions no other one is all that is indexed. -/
theorem followAll_nothing (fs : FileSystem) (fuel : Nat) {b : ModuleIndex.Builder}
    (h : b.queue = [(0, [])]) : b.followAll fs (fuel + 1) = { b with queue := [] } := by
  rw [ModuleIndex.Builder.followAll, h]
  cases fuel <;> rfl

/-- **The program is a module of its own,** in which the constant is declared once. -/
theorem exists_module (fs : FileSystem) (path : Path) (log : Log) {text : String}
    (htext : ¬HoldsSubstitution text) :
    ∃ program definition,
      ModuleIndex.ofText fs (declaring text) path log =
        .ok (⟨[⟨path, .script program⟩], []⟩, log) ∧
      DeclaredOnce program "x" definition ∧
      ∃ loc, definition = .lit loc (.string text) ∨ definition = .template loc [text] [] := by
  obtain ⟨e, span, comments, hspells, hparse⟩ :=
    Script.parseText_declaring (ParsedSource.languageOf path) htext
  let layout := Layout.of (declaring text).toList comments
  let program : Program := ⟨declaring text, layout.statements 0 [⟨.statement (constant e), span⟩]⟩
  obtain ⟨loc, hdefinition⟩ := exists_definition layout hspells
  have hmark : Text.dropByteOrderMark (declaring text).toList = (declaring text).toList := by
    rw [Script.declaring_toList]
    rfl
  have hsource : ParsedSource.ofText (declaring text) path = .ok ⟨program, []⟩ := by
    unfold ParsedSource.ofText
    simp only [hmark, hparse, references_constant hspells]
    rfl
  refine ⟨program.reattach, (layout.expr e).reattach, ?_, ⟨rfl, ?_⟩, loc, hdefinition⟩
  · unfold ModuleIndex.ofText
    simp only [hsource, followAll_nothing]
  · exact ⟨_, List.mem_singleton_self _, false, _, rfl, List.mem_singleton_self _⟩

theorem literal_yields {env : Environment} {s : Session} {enter : Evaluator Session}
    {definition : Expr} {text : String} {loc : Loc}
    (h : definition = .lit loc (.string text) ∨ definition = .template loc [text] []) :
    Yields env s (Evaluate.expression enter 0 none definition) (.str text) := by
  obtain rfl | rfl := h
  · exact .pure _
  · have hjoin : "" ++ String.join [text] = text := by simp
    have htemplate : Evaluate.expression enter 0 none (.template loc [text] []) =
        pure (.str ("" ++ String.join [text])) := rfl
    rw [htemplate, hjoin]
    exact .pure _

/-- **Printed strings read back.** Take any string and the program that declares its printed form as
a constant. Unless the string is put between backquotes and holds a dollar sign with a brace behind
it, the program is read, whatever language and file it is in, and the constant evaluates to the
string.

In the exceptional case the text behind the opening backquote is a piece of a template that ends at
a substitution, and not at the closing backquote. That the constant differs from the string then
would be too much to say: a substitution can be written that gives its own source text. -/
theorem printed_string_reads_back (text : String) (fs : FileSystem) (path : Path) (log : Log)
    (config : Config) :
    (¬HoldsSubstitution text →
      ∃ index, ModuleIndex.ofText fs (declaring text) path log = .ok (index, log) ∧
        ∀ s : Session, s.resolving = [] →
          Eval.lookup 0 "x" none ⟨index, config⟩ s = (.ok (.str text), s)) ∧
    (HoldsSubstitution text →
      ∃ literal, (declaring text).toList = "const x = ".toList ++ Value.backquote :: literal ∧
        ∃ raw rest, Script.Quoted.untilSubstitution literal = some (raw, false, rest)) := by
  refine ⟨fun htext => ?_, fun ⟨hquote, hinfix⟩ => ?_⟩
  · obtain ⟨program, definition, hindex, hdeclared, loc, hdefinition⟩ :=
      exists_module fs path log htext
    exact ⟨_, hindex, fun s hidle =>
      hdeclared.resolve_yields_of rfl hidle rfl (fun _ _ => literal_yields hdefinition) loc⟩
  · refine ⟨_, ?_, Value.untilSubstitution_of_infix hinfix [Value.backquote, ';']⟩
    rw [Script.declaring_toList, Script.literalPart, hquote]
    rfl

/-- All three quotes together are put between single ones, where no substitution opens. -/
theorem threeQuotes_read_back :
    let text := "it's \"\x60$\x7ba\x7d\x60\"\\\n"
    let substituted := "'\"$\x7ba\x7d"
    (¬HoldsSubstitution text ∧
      ∃ index, ModuleIndex.ofText ⟨[], []⟩ (declaring text) "model.js" (.empty true) =
          .ok (index, .empty true) ∧
        (Session.start (.empty true)).resolving = [] ∧
        Eval.lookup 0 "x" none ⟨index, .standard⟩ (Session.start (.empty true)) =
          (.ok (.str text), Session.start (.empty true))) ∧
    HoldsSubstitution substituted ∧
      ∃ literal, (declaring substituted).toList =
          "const x = ".toList ++ Value.backquote :: literal ∧
        ∃ raw rest, Script.Quoted.untilSubstitution literal = some (raw, false, rest) := by
  intro text substituted
  have htext : ¬HoldsSubstitution text := by decide
  have hsubstituted : HoldsSubstitution substituted := by decide
  obtain ⟨index, hindex, hlookup⟩ :=
    (printed_string_reads_back text ⟨[], []⟩ "model.js" (.empty true) .standard).1 htext
  have hpiece :=
    (printed_string_reads_back substituted ⟨[], []⟩ "model.js" (.empty true) .standard).2 hsubstituted
  exact ⟨⟨htext, index, hindex, rfl, hlookup _ rfl⟩, hsubstituted, hpiece⟩

/-- With a substitution of a name that is declared nowhere, the constant has no known value. -/
theorem substituted_name_not_read_back :
    let text := "'\"$\x7ba\x7d"
    ∃ index log, ModuleIndex.ofText ⟨[], []⟩ (declaring text) "model.js" (.empty true) =
        .ok (index, log) ∧
      (Eval.lookup 0 "x" none ⟨index, .standard⟩ (Session.start log)).1 = .ok .unknown := by
  intro text
  have hfacts : ((ModuleIndex.ofText ⟨[], []⟩ (declaring text) "model.js"
      (.empty true)).toOption.any fun loaded =>
        ((Eval.lookup 0 "x" none ⟨loaded.1, .standard⟩
          (Session.start loaded.2)).1.toOption.any Value.isUnknown)) = true := by
    decide +kernel
  obtain ⟨⟨index, log⟩, hindex, hvalue⟩ := (Option.any_eq_true _ _).mp hfacts
  obtain ⟨v, hlookup, hunknown⟩ := (Option.any_eq_true _ _).mp hvalue
  obtain rfl : v = .unknown := by
    cases v with
    | unknown => rfl
    | _ => cases hunknown
  exact ⟨index, log, eq_ok_of_toOption hindex, eq_ok_of_toOption hlookup⟩

end SchemaDoc.Document
