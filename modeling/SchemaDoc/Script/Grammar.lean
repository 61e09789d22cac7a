import SchemaDoc.Script.Grammar.Items
import SchemaDoc.Script.Grammar.Markup

/-!
# The grammar

The bodies of all rules together, and the grammar that reads every rule by its body. A rule that is
read inside another one gets one unit of fuel less; a file has far more fuel than its rules can
nest.
-/

namespace SchemaDoc.Script

namespace Grammar

open SchemaDoc.Script.Parser

/-- The body of a rule, over a grammar for the rules inside it. -/
def body (g : Grammar) : {α : Type} → Rule α → Parser α
  | _, .assign => assign g
  | _, .operators left level => operators g left level
  | _, .unary => unary g
  | _, .construct => construct g
  | _, .target lexical => target g lexical
  | _, .params => params g
  | _, .statement declares => statement g declares
  | _, .block directive => block g directive
  | _, .classRest named => classRest g named
  | _, .itemBlock => itemBlock g
  | _, .element => markup g
  | _, .type => type g
  | _, .plainType => plainType g
  | _, .operandType => operandType g

/-- The grammar with a bound on how deeply rules nest. -/
def withFuel : Nat → Grammar
  | 0, _, _ => exhausted
  | fuel + 1, _, r => body (withFuel fuel) r

end Grammar

/-- A parsed file with its comments in the order of the text. -/
structure Parsed where
  file : File
  comments : List RawComment

/-- The text without a first line that names an interpreter. -/
def afterInterpreter (c : Cursor) : Cursor :=
  match c.rest with
  | '#' :: '!' :: _ =>
    let line := c.rest.takeWhile fun c => !isLineEnd c
    ⟨c.rest.drop line.length, c.offset + Text.byteLength line⟩
  | _ => c

/-- How deeply the rules of a text may nest: every few of them take a character. -/
def fuelFor (length : Nat) : Nat := 8 * length + 64

/-- Whether the first token of a file asks for strict code. -/
def Token.isStrictDirective (t : Token) : Bool :=
  t.kind == .string (some "use strict") && t.hi == t.lo + 12

/-- Parses a text. It fails with the stretch of the text that does not fit. -/
def parseText (language : Language) (text : List Char) : Except Failure Parsed :=
  let plain : Surroundings :=
    { strict := false, isModule := false, inAsync := false, inGenerator := false,
      inStaticBlock := false }
  let (token, comments) := Token.first plain (afterInterpreter ⟨text, 0⟩)
  let context : Context :=
    { language
      limit := text.length + 2
      surroundings := { plain with strict := token.isStrictDirective }
      inAllowed := true
      inParameters := false
      superAllowed := false
      ambient := false
      inLoopHead := false
      inConditional := false
      colonExpected := false
      conditionalTypes := true
      arrowAt := none }
  let start : State := { token, last := 0, comments, last_le := Nat.zero_le _ }
  match (Grammar.itemList (Grammar.withFuel (fuelFor text.length)) false).run context start with
  | .ok items finish => .ok ⟨⟨items⟩, finish.comments.reverse⟩
  | .error failure _ => .error failure

end SchemaDoc.Script
