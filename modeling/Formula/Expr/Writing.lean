import Formula.Decimal
import Formula.Expr.Evaluation

/-!
# Writing expressions

The text of an expression. An operand stands in parentheses when it binds more loosely than the
operation above it, or equally tightly on the right. A product of two atomic factors is written
without a sign between them, the constant one first. With `full` set every operation that is written
with a sign gets parentheses of its own.
-/

namespace Formula.Expr

variable {α : Type}

/-- A text in parentheses. -/
def inParens (s : List Char) : List Char :=
  '(' :: s ++ [')']

section

variable [Numeral α]

/-- Is the expression a number that is infinite or undefined? -/
def isUnwritable : Expr α → Bool
  | num value => !Numeral.isFinite value
  | _ => false

/-- Is the expression a number with a minus sign? -/
def isNegativeNumber : Expr α → Bool
  | num value => Numeral.isNegative value
  | _ => false

/-- Is the expression a variable that would read as a part of the number before it? -/
def continuesNumber : Expr α → Bool
  | var id => id.isDigit || id == '.' || id == '-' || id == '+'
  | _ => false

/-- Which of the two factors of a product comes second when the product is written without a sign,
and which first; none when the product needs a sign. Both factors have to be atomic, and not both
constant: numbers side by side would run together. -/
def juxtaposed? (l r : Expr α) : Option Bool :=
  if !l.isAtomic || !r.isAtomic then none
  else if l.isUnwritable || r.isUnwritable then none
  else if l.isConstant && r.isConstant then none
  else
    let swapped := r.isConstant
    let second := if swapped then l else r
    if second.continuesNumber then none else some swapped

/-- Two factors side by side. A product in second place keeps its parentheses, since a row of
factors reads from the left. -/
def sideBySide (first : List Char) (second : Expr α) (secondText : List Char) : List Char :=
  first ++ if second.isProduct then inParens secondText else secondText

/-- With full parentheses, does the expression already have its own? -/
def parenthesizesItself : Expr α → Bool
  | add .. | sub .. | div .. | pow .. | pending .. => true
  | mul l r => (juxtaposed? l r).isNone
  | _ => false

/-- Does an operand need parentheses under the operation above it? Besides binding strength, a power
or a negative number as the base of a power needs them. -/
def needsParens (parent operand : Expr α) (isRight : Bool) : Bool :=
  decide (operand.precedence < parent.precedence)
    || (isRight && operand.precedence == parent.precedence)
    || (!isRight && parent.isPower && (operand.isPower || operand.isNegativeNumber))

/-- The text of an operand, given its own text. -/
def operandText (full : Bool) (parent operand : Expr α) (isRight : Bool) (text : List Char) :
    List Char :=
  if full && operand.parenthesizesItself then text
  else if needsParens parent operand isRight then inParens text
  else text

/-- The text of an operation that is written with a sign between its operands. -/
def operationText (full : Bool) (parent l r : Expr α) (sign left right : List Char) : List Char :=
  let body := operandText full parent l false left ++ sign ++ operandText full parent r true right
  if full then inParens body else body

/-- The text of a pending derivative. -/
def pendingText (full : Bool) (parent n d : Expr α) (order : Nat)
    (numerator denominator : List Char) :
    List Char :=
  let numerator := operandText full parent n false numerator
  let denominator := operandText full parent d false denominator
  let power := if 1 < order then '^' :: Nat.toDigits 10 order else []
  let body := 'd' :: power ++ numerator ++ ['/', 'd'] ++ denominator ++ power
  if full then inParens body else body

/-- The text of an expression. -/
def write (full : Bool) : Expr α → List Char
  | num value => Numeral.text value
  | var id => [id]
  | const id => [id]
  | add l r => operationText full (add l r) l r [' ', '+', ' '] (l.write full) (r.write full)
  | sub l r => operationText full (sub l r) l r [' ', '-', ' '] (l.write full) (r.write full)
  | mul l r =>
    match juxtaposed? l r with
    | some false => sideBySide (l.write full) r (r.write full)
    | some true => sideBySide (r.write full) l (l.write full)
    | none => operationText full (mul l r) l r [' ', '*', ' '] (l.write full) (r.write full)
  | div l r => operationText full (div l r) l r [' ', '/', ' '] (l.write full) (r.write full)
  | pow l r => operationText full (pow l r) l r ['^'] (l.write full) (r.write full)
  | log base argument kind =>
    match kind with
    | .natural => ['l', 'n'] ++ inParens (argument.write full)
    | .ten => ['l', 'o', 'g'] ++ inParens (argument.write full)
    | .general =>
      ['l', 'o', 'g', '['] ++ base.write full ++ ']' :: inParens (argument.write full)
  | pending n d order =>
    pendingText full (pending n d order) n d order (n.write full) (d.write full)
  | sin a => ['s', 'i', 'n'] ++ inParens (a.write full)
  | cos a => ['c', 'o', 's'] ++ inParens (a.write full)
  | tan a => ['t', 'a', 'n'] ++ inParens (a.write full)

/-- The text of an expression with as few parentheses as reading it back allows. -/
def text (e : Expr α) : String :=
  String.ofList (e.write false)

/-- The text of an expression with parentheses around every operation. -/
def fullText (e : Expr α) : String :=
  String.ofList (e.write true)

end

end Formula.Expr

namespace Formula.EvaluationError

/-- The report of a failed evaluation. -/
def message {α : Type} [Numeral α] : EvaluationError α → String
  | unresolvedDerivative n d order =>
    "Cannot evaluate unresolved derivative " ++ (Expr.pending n d order).text

end Formula.EvaluationError
