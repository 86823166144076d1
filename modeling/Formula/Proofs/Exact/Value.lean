import Formula.Expr.Evaluation
import Formula.Proofs.Expr.Everywhere
import Mathlib

/-!
# Values over the real numbers

The scalars of a formula taken as exact real numbers, and the value of a tree at a point. A point
says what variables and constants stand for and also what pending derivatives are read as, so that
every tree has a value; where nothing is pending it is the value that evaluation gives,
`Expr.evaluate_eq_valueAt`. Dividing by zero and the like have some value in Lean, so where a tree
is defined is a property of its own, `Expr.Defined`.
-/

namespace Formula

open Classical in
/-- Exact numbers. -/
noncomputable instance : Scalar ℝ where
  ofInt n := n
  euler := Real.exp 1
  add := (· + ·)
  sub := (· - ·)
  mul := (· * ·)
  div := (· / ·)
  pow := (· ^ ·)
  neg := (- ·)
  ln := Real.log
  log10 := Real.logb 10
  sin := Real.sin
  cos := Real.cos
  tan := Real.tan
  same a b := decide (a = b)

/-- Exact numbers are the same when they are equal. -/
@[simp] theorem Scalar.same_real (a b : ℝ) : Scalar.same a b = true ↔ a = b := by
  simp [Scalar.same]

@[simp] theorem Scalar.ofInt_real (n : Int) : (Scalar.ofInt n : ℝ) = n := rfl

/-- Only zero is zero. -/
@[simp] theorem Scalar.isZero_real (a : ℝ) : Scalar.isZero a = true ↔ a = 0 := by
  simp [Scalar.isZero]

/-- Numbers that are computed with exactly: sums, differences, products and powers to natural
exponents are those of a ring, and only equal numbers are the same. -/
class Scalar.Exact (α : Type) [CommRing α] [Scalar α] : Prop where
  ofInt_eq (n : ℤ) : (Scalar.ofInt n : α) = n
  add_eq (a b : α) : Scalar.add a b = a + b
  sub_eq (a b : α) : Scalar.sub a b = a - b
  mul_eq (a b : α) : Scalar.mul a b = a * b
  pow_natCast (a : α) (n : ℕ) : Scalar.pow a n = a ^ n
  same_iff (a b : α) : Scalar.same a b = true ↔ a = b

instance : Scalar.Exact ℝ where
  ofInt_eq _ := rfl
  add_eq _ _ := rfl
  sub_eq _ _ := rfl
  mul_eq _ _ := rfl
  pow_natCast := Real.rpow_natCast
  same_iff := Scalar.same_real

section

variable {α : Type} [CommRing α] [Scalar α] [Scalar.Exact α]

/-- In exact arithmetic only zero is zero. -/
theorem Scalar.isZero_iff {a : α} : Scalar.isZero a = true ↔ a = 0 := by
  rw [Scalar.isZero, Scalar.Exact.same_iff, Scalar.Exact.ofInt_eq, Int.cast_zero]

/-- In exact arithmetic only one is one. -/
theorem Scalar.isOne_iff {a : α} : Scalar.isOne a = true ↔ a = 1 := by
  rw [Scalar.isOne, Scalar.Exact.same_iff, Scalar.Exact.ofInt_eq, Int.cast_one]

/-- The only expression that is the number zero is its leaf. -/
theorem Expr.eq_num_zero_of_isZero {e : Expr α} (h : e.isZero = true) : e = num 0 := by
  cases e with
  | num => exact congrArg num (Scalar.isZero_iff.1 h)
  | _ => cases h

/-- The only expression that is the number one is its leaf. -/
theorem Expr.eq_num_one_of_isOne {e : Expr α} (h : e.isOne = true) : e = num 1 := by
  cases e with
  | num => exact congrArg num (Scalar.isOne_iff.1 h)
  | _ => cases h

end

/-- What the leaves and the pending derivatives of trees stand for. -/
structure Point where
  var : Char → ℝ
  /-- Constants other than Euler's number. -/
  const : Char → ℝ
  /-- A pending derivative, by its numerator, denominator and order. -/
  marker : Expr ℝ → Expr ℝ → Nat → ℝ

/-- The point that bindings give: what is not bound is zero, and pending derivatives are not
used. -/
noncomputable def Bindings.point (b : Bindings ℝ) : Point where
  var id := (b.get? id).getD 0
  const id := (b.get? id).getD 0
  marker _ _ _ := 0

namespace Expr

/-- The value of an expression at a point. -/
noncomputable def valueAt (p : Point) : Expr ℝ → ℝ
  | num value => value
  | var id => p.var id
  | const id => if id = 'e' then Real.exp 1 else p.const id
  | add l r => l.valueAt p + r.valueAt p
  | sub l r => l.valueAt p - r.valueAt p
  | mul l r => l.valueAt p * r.valueAt p
  | div l r => l.valueAt p / r.valueAt p
  | pow l r => l.valueAt p ^ r.valueAt p
  | log base argument kind =>
    match kind with
    | .natural => Real.log (argument.valueAt p)
    | .ten => Real.logb 10 (argument.valueAt p)
    | .general => Real.log (argument.valueAt p) / Real.log (base.valueAt p)
  | pending n d order => p.marker n d order
  | sin a => Real.sin (a.valueAt p)
  | cos a => Real.cos (a.valueAt p)
  | tan a => Real.tan (a.valueAt p)

@[simp] theorem valueAt_ofInt (p : Point) (n : Int) : (ofInt n : Expr ℝ).valueAt p = n := rfl

/-- A natural logarithm has the real logarithm as its value. -/
@[simp] theorem valueAt_ln (p : Point) (e : Expr ℝ) : e.ln.valueAt p = Real.log (e.valueAt p) := by
  simp [ln, logarithm, baseKind, valueAt]

/-- Where nothing is pending, evaluation succeeds with the value at the point that the bindings
give. -/
theorem evaluate_eq_valueAt (b : Bindings ℝ) {e : Expr ℝ} (h : e.MarkerFree) :
    e.evaluate b = .ok (e.valueAt b.point) := by
  induction e with
  | num => rfl
  | var id => simp [evaluate, valueAt, Bindings.point]
  | const id =>
    simp only [evaluate, valueAt, Bindings.point, Scalar.ofInt_real, Int.cast_zero]
    rfl
  | add l r ihl ihr | sub l r ihl ihr | mul l r ihl ihr | div l r ihl ihr | pow l r ihl ihr =>
    rw [evaluate, ihl h.2.1, ihr h.2.2]; rfl
  | log l r kind ihl ihr =>
    rw [evaluate, ihr h.2.2]
    cases kind with
    | natural | ten => rfl
    | general => simp only [ihl h.2.1]; rfl
  | pending => exact absurd h.1 (by simp [isPending])
  | sin a ih | cos a ih | tan a ih => rw [evaluate, ih h.2]; rfl

/-- A logarithm whose kind is that of its base is the quotient of two natural ones. -/
theorem valueAt_logarithm (p : Point) (l r : Expr ℝ) :
    (logarithm l r).valueAt p = Real.log (r.valueAt p) / Real.log (l.valueAt p) := by
  unfold logarithm
  cases l with
  | num x =>
    simp only [baseKind, Scalar.same_real]
    split
    next h => simp [valueAt, Real.logb, h]
    next h =>
      split
      next h => simp [valueAt, h, Scalar.euler]
      next h => rfl
  | const id =>
    simp only [baseKind]
    split
    next h => simp [valueAt, h]
    next h => rfl
  | _ => rfl

/-! ## Where a tree is defined -/

/-- A real power is defined: for a positive base, for the base zero with a positive exponent, and
for a negative base with an integer exponent. -/
def PowDefined (base exponent : ℝ) : Prop :=
  0 < base ∨ (base = 0 ∧ 0 < exponent) ∨ (base < 0 ∧ ∃ n : ℤ, exponent = n)

/-- The topmost operation of an expression is defined at a point. -/
def DefinedAt (p : Point) : Expr ℝ → Prop
  | div _ r => r.valueAt p ≠ 0
  | pow l r => PowDefined (l.valueAt p) (r.valueAt p)
  | log l r _ => 0 < l.valueAt p ∧ l.valueAt p ≠ 1 ∧ 0 < r.valueAt p
  | tan a => Real.cos (a.valueAt p) ≠ 0
  | _ => True

/-- Every subexpression is defined at a point. -/
def Defined (p : Point) (e : Expr ℝ) : Prop :=
  e.Everywhere (DefinedAt p)

end Expr

end Formula
