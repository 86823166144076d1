import Formula.Scalar

/-!
# Expressions

A formula as a tree. Variables and constants are single characters; values of variables are not
stored in the tree. A derivative with respect to a variable on which another one depends in an
unknown way stays behind as a node of its own, `Expr.pending`.
-/

namespace Formula

/-- What kind of logarithm a node is. The kind is stored beside the base and decides how the node is
written, evaluated and differentiated. -/
inductive LogBase
  /-- The base is Euler's number. -/
  | natural
  /-- The base is the number ten. -/
  | ten
  /-- Any other base. -/
  | general
deriving DecidableEq, Repr

/-- An expression over the scalars `α`. -/
inductive Expr (α : Type)
  | num (value : α)
  | var (id : Char)
  /-- A named constant. The constant `e` is Euler's number. -/
  | const (id : Char)
  | add (left right : Expr α)
  | sub (left right : Expr α)
  | mul (left right : Expr α)
  | div (left right : Expr α)
  | pow (base exponent : Expr α)
  | log (base argument : Expr α) (kind : LogBase)
  /-- The derivative of the numerator of some order with respect to the denominator, not yet
  known. -/
  | pending (numerator denominator : Expr α) (order : Nat)
  | sin (argument : Expr α)
  | cos (argument : Expr α)
  | tan (argument : Expr α)
deriving DecidableEq, Repr

namespace Expr

variable {α : Type}

/-- The number of nodes. -/
def size : Expr α → Nat
  | num _ | var _ | const _ => 1
  | add l r | sub l r | mul l r | div l r | pow l r | log l r _ | pending l r _ =>
    l.size + r.size + 1
  | sin a | cos a | tan a => a.size + 1

/-- Every expression has a node. -/
theorem size_pos (e : Expr α) : 0 < e.size := by
  cases e <;> simp [size]

/-! ## Building -/

section Building

variable [Scalar α]

/-- The leaf of an integer. -/
def ofInt (n : Int) : Expr α :=
  num (Scalar.ofInt n)

/-- The kind of a logarithm, read off its base. Only the constant `e` and the numbers `e` and ten
are told apart. -/
def baseKind : Expr α → LogBase
  | const id => if id = 'e' then .natural else .general
  | num value =>
    if Scalar.same value (Scalar.ofInt 10) then .ten
    else if Scalar.same value Scalar.euler then .natural
    else .general
  | _ => .general

/-- A logarithm whose kind agrees with its base. -/
def logarithm (base argument : Expr α) : Expr α :=
  log base argument base.baseKind

/-- The natural logarithm. -/
def ln (argument : Expr α) : Expr α :=
  logarithm (const 'e') argument

/-- The logarithm to the base ten. -/
def log10 (argument : Expr α) : Expr α :=
  logarithm (ofInt 10) argument

/-- Minus an expression, as a product. -/
def opposite (e : Expr α) : Expr α :=
  mul (ofInt (-1)) e

end Building

/-! ## Questions about a tree -/

/-- Is the expression free of variables? A pending derivative never is. -/
def isConstant : Expr α → Bool
  | num _ | const _ => true
  | var _ | pending .. => false
  | add l r | sub l r | mul l r | div l r | pow l r | log l r _ => l.isConstant && r.isConstant
  | sin a | cos a | tan a => a.isConstant

/-- May the expression be a factor that is written without parentheses or a multiplication sign? -/
def isAtomic : Expr α → Bool
  | num _ | var _ | const _ | sin _ | cos _ | tan _ => true
  | mul l r => l.isAtomic && r.isAtomic && !l.isConstant
  | _ => false

/-- How tightly the topmost operation binds its operands when it is written. -/
def precedence : Expr α → Nat
  | add .. | sub .. => 1
  | mul .. | div .. | pending .. => 2
  | pow .. => 3
  | sin _ | cos _ | tan _ => 4
  | log .. => 10
  | num _ | var _ | const _ => 255

/-- Does the topmost operation keep its value when its operands change places? Nodes with fewer than
two operands do. -/
def isCommutative : Expr α → Bool
  | sub .. | div .. | pow .. | log .. | pending .. => false
  | _ => true

/-- Does a variable occur in the expression? -/
def mentions (v : Char) : Expr α → Bool
  | var id => id == v
  | num _ | const _ => false
  | add l r | sub l r | mul l r | div l r | pow l r | log l r _ | pending l r _ =>
    l.mentions v || r.mentions v
  | sin a | cos a | tan a => a.mentions v

/-- The variables from left to right, as often as they occur. -/
def occurrences : Expr α → List Char
  | var id => [id]
  | num _ | const _ => []
  | add l r | sub l r | mul l r | div l r | pow l r | log l r _ | pending l r _ =>
    l.occurrences ++ r.occurrences
  | sin a | cos a | tan a => a.occurrences

/-- The variables in the order of their code points, each once. -/
def vars (e : Expr α) : List Char :=
  e.occurrences.eraseDups.mergeSort fun a b => decide (a ≤ b)

/-- Is the expression a product? -/
def isProduct : Expr α → Bool
  | mul .. => true
  | _ => false

/-- Is the expression a power? -/
def isPower : Expr α → Bool
  | pow .. => true
  | _ => false

/-- Is the expression the number zero? -/
def isZero [Scalar α] : Expr α → Bool
  | num value => Scalar.isZero value
  | _ => false

/-- Is the expression the number one? -/
def isOne [Scalar α] : Expr α → Bool
  | num value => Scalar.isOne value
  | _ => false

/-! ## Substitution -/

/-- The expression with numbers in place of the variables that have a value. Logarithms are built
anew, since a base may have become a number. -/
def substitute [Scalar α] (value? : Char → Option α) : Expr α → Expr α
  | num value => num value
  | const id => const id
  | var id =>
    match value? id with
    | some value => num value
    | none => var id
  | add l r => add (l.substitute value?) (r.substitute value?)
  | sub l r => sub (l.substitute value?) (r.substitute value?)
  | mul l r => mul (l.substitute value?) (r.substitute value?)
  | div l r => div (l.substitute value?) (r.substitute value?)
  | pow l r => pow (l.substitute value?) (r.substitute value?)
  | log base argument _ => logarithm (base.substitute value?) (argument.substitute value?)
  | pending n v order => pending (n.substitute value?) (v.substitute value?) order
  | sin a => sin (a.substitute value?)
  | cos a => cos (a.substitute value?)
  | tan a => tan (a.substitute value?)

/-- The expression with a number in place of one variable. -/
def setVariable [Scalar α] (v : Char) (value : α) (e : Expr α) : Expr α :=
  e.substitute fun id => if id = v then some value else none

end Expr

end Formula
