import Formula.Literal
import Formula.Reading.Dissection
import Formula.Reading.Juxtaposition
import Formula.Text.CharClass

/-!
# Reading formulas

From text to expression. A formula is ASCII text; white space does not count. The text is dissected,
its parts are read in the same way, and the topmost operation joins what they read as. `Expr.parse`
also restores omitted multiplication signs first, `Expr.parseWith` does so on request.
-/

namespace Formula.Reading

open Formula.Bracket

variable {α : Type} [Numeral α]

/-- Minus an expression, where the sign is written in front. It goes into a number, or into the
number with which a product begins. -/
def negate : Expr α → Expr α
  | .num value => .num (Scalar.neg value)
  | .mul (.num value) r => .mul (.num (Scalar.neg value)) r
  | e => e.opposite

/-- The leaf of a letter. -/
def leaf (c : Char) : Expr α :=
  if c = 'e' then .const c else .var c

/-- The number that a literal writes. -/
def readNumber (s : List Char) : Except ParseError (Expr α) :=
  match Decimal.read? s with
  | some d => .ok (.num (Numeral.ofDecimal d))
  | none => .error (.unknownSymbol s)

/-- A text without blanks, freed of the parentheses around it. It has to be balanced and must not be
empty; `shown` is the text that a report on its brackets shows. -/
def enter (shown s : List Char) : Except ParseError { t : List Char // t.length ≤ s.length } :=
  if !balanced s then .error (.unbalanced shown)
  else if (strip s).isEmpty then .error .empty
  else .ok ⟨strip s, length_strip_le s⟩

mutual

/-- The expression that a part of a formula reads as. -/
def readPart (s : List Char) : Except ParseError (Expr α) :=
  match enter s s with
  | .error e => .error e
  | .ok ⟨t, _⟩ => if Literal.isLiteral t then readNumber t else readBody t
termination_by 2 * s.length + 1

/-- The expression that a text reads as when it is neither enclosed in parentheses nor a literal. -/
def readBody (s : List Char) : Except ParseError (Expr α) :=
  match h : dissect s with
  | .operation op l r =>
    have : l.length < s.length := length_lt_of_mem_parts (by simp [h, Dissection.parts])
    have : r.length < s.length := length_lt_of_mem_parts (by simp [h, Dissection.parts])
    do return op.combine (← readPart l) (← readPart r)
  | .negated t =>
    have : t.length < s.length := length_lt_of_mem_parts (by simp [h, Dissection.parts])
    (readPart t).map negate
  | .affirmed t =>
    have : t.length < s.length := length_lt_of_mem_parts (by simp [h, Dissection.parts])
    readPart t
  | .product l r =>
    have : l.length < s.length := length_lt_of_mem_parts (by simp [h, Dissection.parts])
    have : r.length < s.length := length_lt_of_mem_parts (by simp [h, Dissection.parts])
    do return .mul (← readPart l) (← readPart r)
  | .call f base before tail => do
    let base ← match hb : base with
      | none => pure none
      | some b =>
        have : b.length < s.length := length_lt_of_mem_parts (by simp [h, hb, Dissection.parts])
        (readPart b).map some
    match tail, h with
    | .error e, _ => throw e
    | .ok (operand, after), h =>
      have : operand.length < s.length := length_lt_of_mem_parts (by simp [h, Dissection.parts])
      have : after.length < s.length := length_lt_of_mem_parts (by simp [h, Dissection.parts])
      have : before.length < s.length := length_lt_of_mem_parts (by simp [h, Dissection.parts])
      let argument ← readPart operand
      let result := match base with
        | some b => Expr.logarithm b argument
        | none => f.apply argument
      let result ← if before.isEmpty then pure result else (readPart before).map (Expr.mul · result)
      if after.isEmpty then pure result else (readPart after).map (Expr.mul result ·)
  | .letter c => .ok (leaf c)
  | .refused e => .error e
termination_by 2 * s.length

end

/-- The first character that is not ASCII. -/
def foreignChar? (s : List Char) : Option Char :=
  s.find? fun c => decide (127 < c.toNat)

end Formula.Reading

namespace Formula.Expr

open Reading

variable {α : Type} [Numeral α]

/-- The expression that a text reads as, with omitted multiplication signs restored first if
`restore` is set. Of several faults the first character that is not ASCII is reported, and then the
brackets. -/
def read (restore : Bool) (s : List Char) : Except ParseError (Expr α) :=
  match foreignChar? s with
  | some c => .error (.unknownSymbol [c])
  | none =>
    match enter (Text.trim s) (s.filter (!Text.isBlank ·)) with
    | .error e => .error e
    | .ok ⟨t, _⟩ =>
      if Literal.isLiteral t then readNumber t
      else if !restore then readBody t
      else
        match restoreTimes? t with
        | some u => readBody u
        | none => .error (.outOfOrder t)

/-- The expression that a text reads as, with or without restoring omitted multiplication signs. -/
def parseWith (restore : Bool) (text : String) : Except ParseError (Expr α) :=
  read restore text.toList

/-- The expression that a text reads as. -/
def parse (text : String) : Except ParseError (Expr α) :=
  parseWith true text

end Formula.Expr
