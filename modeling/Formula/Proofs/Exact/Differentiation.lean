import Formula.Expr.Derivative
import Formula.Proofs.Exact.Value

/-!
# Derivatives are derivatives

The other variables are differentiable functions of the one that a tree is differentiated by,
constants stay as they are, and a pending first derivative is read as the derivative of the function
that its numerator stands for (`Point.along`). Then the value of the derivative of a tree is the
derivative of the value of the tree, wherever the tree is smooth: `Expr.hasDerivAt_valueAt`.

The rules for powers and logarithms drop a term when the derivative of an operand is free of
variables and has the value zero with every variable at zero. Such a derivative has one value at all
points (`Expr.valueAt_derivative_eq_of_isConstant`), so the dropped term is zero at every point.
-/

namespace Formula

/-- The point at which one variable has a value and every other one is a function of it. A pending
first derivative by that variable is read as the slope of its numerator. -/
noncomputable def Point.along (v : Char) (f : Char → ℝ → ℝ) (constant : Char → ℝ) (t : ℝ) :
    Point where
  var w := if w = v then t else f w t
  const := constant
  marker n d order :=
    match n, d, order with
    | .var w, .var u, 1 => if u = v then deriv (f w) t else 0
    | _, _, _ => 0

namespace Expr

/-- The topmost operation of an expression is differentiable at a point: denominators are not zero,
a base is positive, or not zero under the leaf of an integer, and logarithms and tangents are in
their domains. -/
def SmoothAt (p : Point) : Expr ℝ → Prop
  | div _ r => r.valueAt p ≠ 0
  | pow l r => 0 < l.valueAt p ∨ (l.valueAt p ≠ 0 ∧ ∃ n : ℤ, r = num (n : ℝ))
  | log l r _ => 0 < l.valueAt p ∧ l.valueAt p ≠ 1 ∧ 0 < r.valueAt p
  | tan a => Real.cos (a.valueAt p) ≠ 0
  | _ => True

/-- Every operation in a tree is differentiable at a point. -/
def Smooth (p : Point) (e : Expr ℝ) : Prop :=
  e.Everywhere (SmoothAt p)

/-! ## Derivatives without variables -/

variable {v : Char}

/-- The derivative of a tree without variables is zero everywhere. -/
theorem valueAt_derivative_of_isConstant (p : Point) {e : Expr ℝ} (h : e.isConstant = true) :
    (e.derivative v).valueAt p = 0 := by
  induction e with
  | num | const => simp [derivative]
  | var | pending => simp [isConstant] at h
  | add l r ihl ihr | sub l r ihl ihr | mul l r ihl ihr | div l r ihl ihr =>
    rw [isConstant, Bool.and_eq_true] at h
    simp [derivative, valueAt, ihl h.1, ihr h.2]
  | pow l r ihl ihr =>
    rw [isConstant, Bool.and_eq_true] at h
    simp [derivative, powDerivative, h.2, valueAt, ihl h.1]
  | log l r kind ihl ihr =>
    rw [isConstant, Bool.and_eq_true] at h
    unfold derivative logDerivative
    split
    · simp [valueAt, ihr h.2]
    · split <;> simp [valueAt, ihl h.1, ihr h.2]
  | sin a ih | cos a ih | tan a ih => simp [derivative, valueAt, ih h]

/-- A natural logarithm is free of variables when its argument is. -/
theorem isConstant_ln (e : Expr ℝ) : e.ln.isConstant = e.isConstant := by
  simp [ln, logarithm, isConstant]

/-- A product, quotient, power, logarithm or function has a derivative without variables only if it
has no variables itself; a sum of variables is why sums and differences are left out. -/
theorem isConstant_of_isConstant_powDerivative {base exponent dBase dExponent : Expr ℝ}
    (h : (powDerivative base exponent dBase dExponent).isConstant = true) :
    base.isConstant = true ∧ exponent.isConstant = true := by
  unfold powDerivative at h
  split at h
  · simp only [isConstant, Bool.and_eq_true] at h
    exact ⟨h.2.1, h.1.1⟩
  · split at h
    · simp only [isConstant, Bool.and_eq_true] at h
      exact h.2
    · simp only [isConstant, Bool.and_eq_true] at h
      exact h.1

/-- The derivative of a logarithm is free of variables only if its argument is, and its base too
unless the logarithm is a natural one. -/
theorem isConstant_of_isConstant_logDerivative {base argument dBase dArgument : Expr ℝ}
    {kind : LogBase} (h : (logDerivative base argument kind dBase dArgument).isConstant = true) :
    argument.isConstant = true ∧ (kind = .natural ∨ base.isConstant = true) := by
  unfold logDerivative at h
  split at h
  next hkind =>
    simp only [isConstant, Bool.and_eq_true] at h
    exact ⟨h.2, .inl hkind⟩
  · split at h
    · simp only [isConstant, isConstant_ln, Bool.and_eq_true] at h
      exact ⟨h.2.1, .inr h.2.2⟩
    · simp only [isConstant, isConstant_ln, Bool.and_eq_true] at h
      exact ⟨h.1.1.1.2, .inr h.2.1⟩

/-- A derivative without variables has the same value at all points. -/
theorem valueAt_derivative_eq_of_isConstant (p q : Point) {e : Expr ℝ}
    (h : (e.derivative v).isConstant = true) :
    (e.derivative v).valueAt p = (e.derivative v).valueAt q := by
  have zero {a : Expr ℝ} (ha : a.isConstant = true) (p : Point) : (a.derivative v).valueAt p = 0 :=
    valueAt_derivative_of_isConstant p ha
  induction e with
  | num | const => rfl
  | var id =>
    unfold derivative at h ⊢
    split at h
    next hid => simp [hid]
    · simp [isConstant] at h
  | pending n d order =>
    unfold derivative at h
    simp only at h
    split at h <;> simp [isConstant] at h
  | add l r ihl ihr | sub l r ihl ihr =>
    rw [derivative, isConstant, Bool.and_eq_true] at h
    simp only [derivative, valueAt, ihl h.1, ihr h.2]
  | mul l r | div l r =>
    have hlr : l.isConstant = true ∧ r.isConstant = true := by
      simp only [derivative, isConstant, Bool.and_eq_true] at h
      tauto
    rw [zero (by simp [isConstant, hlr]) p, zero (by simp [isConstant, hlr]) q]
  | pow l r =>
    have hlr := isConstant_of_isConstant_powDerivative h
    rw [zero (by simp [isConstant, hlr]) p, zero (by simp [isConstant, hlr]) q]
  | log l r kind =>
    obtain ⟨hr, rfl | hl⟩ := isConstant_of_isConstant_logDerivative h
    · simp [derivative, logDerivative, valueAt, zero hr]
    · rw [zero (by simp [isConstant, hl, hr]) p, zero (by simp [isConstant, hl, hr]) q]
  | sin a | cos a | tan a =>
    have ha : a.isConstant = true := by
      simp only [derivative, isConstant, Bool.and_eq_true] at h
      tauto
    rw [zero (by simpa [isConstant] using ha) p, zero (by simpa [isConstant] using ha) q]

/-- An expression free of variables has no pending derivatives. -/
theorem markerFree_of_isConstant {e : Expr ℝ} (h : e.isConstant = true) : e.MarkerFree := by
  induction e with
  | num | const => rfl
  | var | pending => simp [isConstant] at h
  | add l r ihl ihr | sub l r ihl ihr | mul l r ihl ihr | div l r ihl ihr | pow l r ihl ihr
  | log l r _ ihl ihr =>
    rw [isConstant, Bool.and_eq_true] at h
    exact ⟨rfl, ihl h.1, ihr h.2⟩
  | sin a ih | cos a ih | tan a ih => exact ⟨rfl, ih h⟩

/-- A derivative that passes as constantly zero is zero at every point. -/
theorem valueAt_derivative_of_isConstantZero (p : Point) {e : Expr ℝ}
    (h : (e.derivative v).isConstantZero = true) : (e.derivative v).valueAt p = 0 := by
  rw [isConstantZero, Bool.and_eq_true] at h
  obtain ⟨hconstant, hzero⟩ := h
  have hvalue : (e.derivative v).value = .ok ((e.derivative v).valueAt (Bindings.point {})) :=
    evaluate_eq_valueAt {} (markerFree_of_isConstant hconstant)
  rw [hvalue] at hzero
  rw [valueAt_derivative_eq_of_isConstant p (Bindings.point {}) hconstant]
  exact (Scalar.isZero_real _).1 hzero

/-! ## Powers and logarithms -/

/-- The value of the derivative of a power, by the rule that holds for every positive base. A rule
that drops a term may be used where the term is zero. -/
theorem valueAt_powDerivative {p : Point} {base exponent dBase dExponent : Expr ℝ}
    (hbase : 0 < base.valueAt p)
    (hexponent : exponent.isConstant = true ∨ dExponent.isConstantZero = true →
      dExponent.valueAt p = 0)
    (hdBase : dBase.isConstantZero = true → dBase.valueAt p = 0) :
    (powDerivative base exponent dBase dExponent).valueAt p =
      dBase.valueAt p * exponent.valueAt p * base.valueAt p ^ (exponent.valueAt p - 1) +
        dExponent.valueAt p * base.valueAt p ^ exponent.valueAt p * Real.log (base.valueAt p) := by
  unfold powDerivative
  split
  next h =>
    rw [Bool.or_eq_true] at h
    simp only [valueAt, valueAt_ofInt, hexponent h]
    push_cast
    ring
  · split
    next h =>
      simp only [valueAt, valueAt_ln, hdBase h]
      ring
    · simp only [valueAt, valueAt_ln, Real.rpow_sub_one hbase.ne']
      ring

/-- The value of the derivative of a logarithm, by the quotient rule for two natural logarithms. -/
theorem valueAt_logDerivative {p : Point} {base argument dBase dArgument : Expr ℝ}
    (hbase : Real.log (base.valueAt p) ≠ 0)
    (hdBase : dBase.isConstantZero = true → dBase.valueAt p = 0)
    (hnatural : base.baseKind = .natural → base.valueAt p = Real.exp 1 ∧ dBase.valueAt p = 0) :
    (logDerivative base argument base.baseKind dBase dArgument).valueAt p =
      (dArgument.valueAt p / argument.valueAt p * Real.log (base.valueAt p) -
        Real.log (argument.valueAt p) * (dBase.valueAt p / base.valueAt p)) /
          Real.log (base.valueAt p) ^ 2 := by
  unfold logDerivative
  split
  next h =>
    obtain ⟨hvalue, hzero⟩ := hnatural h
    simp [valueAt, hvalue, hzero]
  · split
    next h =>
      simp only [valueAt, valueAt_ln, hdBase h, zero_div, mul_zero, sub_zero]
      field_simp
    · simp only [valueAt, valueAt_ln, valueAt_ofInt]
      push_cast
      rw [Real.rpow_two]

/-- A base of the natural kind is Euler's number, and does not change. -/
theorem eq_exp_of_baseKind_eq_natural (p : Point) {base : Expr ℝ} (h : base.baseKind = .natural) :
    base.valueAt p = Real.exp 1 ∧ (base.derivative v).valueAt p = 0 := by
  cases base with
  | num x =>
    refine ⟨?_, valueAt_derivative_of_isConstant p rfl⟩
    simp only [baseKind, Scalar.same_real] at h
    split at h
    · simp at h
    · split at h
      next heuler => exact heuler
      · simp at h
  | const id =>
    refine ⟨?_, valueAt_derivative_of_isConstant p rfl⟩
    simp only [baseKind] at h
    split at h
    next hid => simp [valueAt, hid]
    · simp at h
  | _ => simp [baseKind] at h

/-! ## Derivatives -/

/-- Values along a curve of points on which the variable runs and the others follow it. -/
theorem hasDerivAt_var {f : Char → ℝ → ℝ} {constant : Char → ℝ} {t : ℝ}
    (hf : ∀ w, w ≠ v → DifferentiableAt ℝ (f w) t) (id : Char) :
    HasDerivAt (fun s => (var id : Expr ℝ).valueAt (Point.along v f constant s))
      (((var id : Expr ℝ).derivative v).valueAt (Point.along v f constant t)) t := by
  unfold derivative
  split
  next hid =>
    simp only [valueAt, Point.along, hid, if_true, valueAt_ofInt, Int.cast_one]
    exact hasDerivAt_id t
  next hid =>
    simp only [valueAt, Point.along, hid, if_false, if_true]
    exact (hf id hid).hasDerivAt

/-- The value of the derivative of a tree is the derivative of its value. -/
theorem hasDerivAt_valueAt (e : Expr ℝ) (v : Char) (f : Char → ℝ → ℝ) (constant : Char → ℝ) (t : ℝ)
    (hf : ∀ w, w ≠ v → DifferentiableAt ℝ (f w) t) (hm : e.MarkerFree) (hk : e.KindsAgree)
    (hs : e.Smooth (Point.along v f constant t)) :
    HasDerivAt (fun s => e.valueAt (Point.along v f constant s))
      ((e.derivative v).valueAt (Point.along v f constant t)) t := by
  induction e with
  | num x => simpa [derivative, valueAt] using hasDerivAt_const t x
  | const id => simpa [derivative, valueAt, Point.along] using hasDerivAt_const t _
  | var id => exact hasDerivAt_var hf id
  | pending => exact absurd hm.1 (by simp [isPending])
  | add l r ihl ihr => exact (ihl hm.2.1 hk.2.1 hs.2.1).add (ihr hm.2.2 hk.2.2 hs.2.2)
  | sub l r ihl ihr => exact (ihl hm.2.1 hk.2.1 hs.2.1).sub (ihr hm.2.2 hk.2.2 hs.2.2)
  | mul l r ihl ihr => exact (ihl hm.2.1 hk.2.1 hs.2.1).mul (ihr hm.2.2 hk.2.2 hs.2.2)
  | div l r ihl ihr =>
    have hquotient := (ihl hm.2.1 hk.2.1 hs.2.1).div (ihr hm.2.2 hk.2.2 hs.2.2) hs.1
    refine hquotient.congr_deriv ?_
    simp only [derivative, valueAt, valueAt_ofInt]
    push_cast
    rw [Real.rpow_two]
  | pow base exponent ihb ihx =>
    have hb := ihb hm.2.1 hk.2.1 hs.2.1
    have hx := ihx hm.2.2 hk.2.2 hs.2.2
    rcases hs.1 with hpos | ⟨hne, n, rfl⟩
    · refine (hb.rpow hx hpos).congr_deriv (valueAt_powDerivative hpos ?_ ?_).symm
      · rintro (h | h)
        exacts [valueAt_derivative_of_isConstant _ h, valueAt_derivative_of_isConstantZero _ h]
      · exact fun h => valueAt_derivative_of_isConstantZero _ h
    · refine (hb.rpow_const (p := (n : ℝ)) (.inl hne)).congr_deriv ?_
      simp only [derivative, powDerivative, isConstant, Bool.true_or, if_true, valueAt,
        valueAt_ofInt, Int.cast_one]
      ring
  | log base argument kind ihb iha =>
    have hkind : kind = base.baseKind := hk.1
    subst hkind
    obtain ⟨hpos, hone, harg⟩ := hs.1
    have hlog := Real.log_ne_zero_of_pos_of_ne_one hpos hone
    have hb := (ihb hm.2.1 hk.2.1 hs.2.1).log hpos.ne'
    have ha := (iha hm.2.2 hk.2.2 hs.2.2).log harg.ne'
    have hvalue : (fun s => (log base argument base.baseKind).valueAt
      (Point.along v f constant s)) =
        fun s => Real.log (argument.valueAt (Point.along v f constant s)) /
          Real.log (base.valueAt (Point.along v f constant s)) :=
      funext fun s => valueAt_logarithm _ base argument
    rw [hvalue]
    refine (ha.div hb hlog).congr_deriv (valueAt_logDerivative hlog ?_ ?_).symm
    · exact fun h => valueAt_derivative_of_isConstantZero _ h
    · exact fun h => eq_exp_of_baseKind_eq_natural _ h
  | sin a ih => exact (ih hm.2 hk.2 hs.2).sin
  | cos a ih =>
    refine (ih hm.2 hk.2 hs.2).cos.congr_deriv ?_
    simp [derivative, valueAt]
  | tan a ih =>
    refine ((Real.hasDerivAt_tan hs.1).comp t (ih hm.2 hk.2 hs.2)).congr_deriv ?_
    simp only [derivative, valueAt, valueAt_ofInt, Real.rpow_intCast, zpow_neg, one_div]
    rfl

/-- A power whose base and exponent are other variables, at a point where the general rule
applies. -/
theorem hasDerivAt_valueAt_foreign_power :
    HasDerivAt (fun s => (pow (var 'x') (var 'y') : Expr ℝ).valueAt
      (Point.along 'x' (fun _ => Real.exp) 0 s))
      (((pow (var 'x') (var 'y') : Expr ℝ).derivative 'x').valueAt
        (Point.along 'x' (fun _ => Real.exp) 0 2)) 2 := by
  refine hasDerivAt_valueAt _ 'x' (fun _ => Real.exp) 0 2 ?_ ?_ ?_ ?_
  · exact fun w _ => Real.differentiableAt_exp
  · simp [MarkerFree, Everywhere, isPending]
  · simp [KindsAgree, Everywhere, KindAgrees]
  · exact ⟨.inl (by simp [valueAt, Point.along]), trivial, trivial⟩

end Expr

end Formula
