import Formula.Expr

/-!
# Symbols

The operators and function names that the text of a formula may hold, in the order in which they are
looked for. A name that contains another one comes before it, as `cosec` before `sec` and `sinc`
before `sin`.
-/

namespace Formula

/-- An operator or a function name. -/
inductive Symbol
  | plus | minus | times | divide | power
  | sinc | cosec | sec | csc | cotan | cot | sin | cos | tan | ln | log
deriving DecidableEq, Repr

namespace Symbol

/-- All symbols in the order of the search. -/
def all : List Symbol :=
  [plus, minus, times, divide, power, sinc, cosec, sec, csc, cotan, cot, sin, cos, tan, ln, log]

/-- How the symbol is written. -/
def name : Symbol → List Char
  | plus => ['+']
  | minus => ['-']
  | times => ['*']
  | divide => ['/']
  | power => ['^']
  | sinc => ['s', 'i', 'n', 'c']
  | cosec => ['c', 'o', 's', 'e', 'c']
  | sec => ['s', 'e', 'c']
  | csc => ['c', 's', 'c']
  | cotan => ['c', 'o', 't', 'a', 'n']
  | cot => ['c', 'o', 't']
  | sin => ['s', 'i', 'n']
  | cos => ['c', 'o', 's']
  | tan => ['t', 'a', 'n']
  | ln => ['l', 'n']
  | log => ['l', 'o', 'g']

/-- The symbol written in a given way. -/
def ofName? (s : List Char) : Option Symbol :=
  all.find? (·.name == s)

/-- Does the symbol stand between two operands? -/
def isOperator : Symbol → Bool
  | plus | minus | times | divide | power => true
  | _ => false

/-- The function names in the order of the search. -/
def functions : List Symbol :=
  all.filter (!·.isOperator)

/-- Is the character an operator? -/
def isOperatorChar (c : Char) : Bool :=
  c == '+' || c == '-' || c == '*' || c == '/' || c == '^'

/-- Every name has a letter or sign. -/
theorem name_length_pos (f : Symbol) : 0 < f.name.length := by
  cases f <;> decide

variable {α : Type} [Scalar α]

/-- One over an expression. -/
def reciprocal (e : Expr α) : Expr α :=
  .pow e (.ofInt (-1))

/-- A function applied to an operand. The reciprocal functions and `sinc` have no node of their own.
An operator has no single operand and leaves it as it is. -/
def apply (f : Symbol) (operand : Expr α) : Expr α :=
  match f with
  | sin => .sin operand
  | cos => .cos operand
  | tan => .tan operand
  | sec => reciprocal (.cos operand)
  | cosec | csc => reciprocal (.sin operand)
  | cotan | cot => reciprocal (.tan operand)
  | sinc => .div (.sin operand) operand
  | ln => operand.ln
  | log => operand.log10
  | plus | minus | times | divide | power => operand

/-- An operator between two operands. A function has no two operands and is read as a product. -/
def combine (op : Symbol) (l r : Expr α) : Expr α :=
  match op with
  | plus => .add l r
  | minus => .sub l r
  | divide => .div l r
  | power => .pow l r
  | _ => .mul l r

end Symbol

end Formula
