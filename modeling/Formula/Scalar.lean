/-!
# Scalars

The numbers a formula computes with. `Scalar α` names the operations that evaluation,
differentiation and simplification use, and nothing else about `α`, so that the same definitions run
on machine numbers and can be read over an exact field. The program itself works on `Float`.
-/

namespace Formula

/-- A type of numbers with the operations of a formula. -/
class Scalar (α : Type) where
  /-- The integer constants that rules of calculus and simplification introduce. -/
  ofInt : Int → α
  /-- Euler's number. -/
  euler : α
  add : α → α → α
  sub : α → α → α
  mul : α → α → α
  div : α → α → α
  pow : α → α → α
  neg : α → α
  /-- Natural logarithm. -/
  ln : α → α
  /-- Logarithm to the base ten. -/
  log10 : α → α
  sin : α → α
  cos : α → α
  tan : α → α
  /-- Numeric equality: on machine numbers the two zeros agree and what is not a number differs from
  everything. -/
  same : α → α → Bool

instance : Scalar Float where
  ofInt := Float.ofInt
  euler := 2.718281828459045
  add := (· + ·)
  sub := (· - ·)
  mul := (· * ·)
  div := (· / ·)
  pow := Float.pow
  neg := Float.neg
  ln := Float.log
  log10 := Float.log10
  sin := Float.sin
  cos := Float.cos
  tan := Float.tan
  same a b := a == b

/-- Equality with the scalar zero. -/
def Scalar.isZero {α : Type} [Scalar α] (a : α) : Bool :=
  Scalar.same a (Scalar.ofInt 0)

/-- Equality with the scalar one. -/
def Scalar.isOne {α : Type} [Scalar α] (a : α) : Bool :=
  Scalar.same a (Scalar.ofInt 1)

end Formula
