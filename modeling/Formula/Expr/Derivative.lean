import Formula.Expr.Evaluation

/-!
# Derivatives

The derivative of an expression with respect to a variable, by the rules of calculus and without any
simplification. A variable other than that one is not a constant: how it depends on the variable is
not known, so its derivative is left pending. Differentiating what is pending raises its order and,
by the chain rule, leaves another pending factor if its denominator is a variable of its own.
-/

namespace Formula.Expr

variable {α : Type} [Scalar α]

/-- The derivative of a power from the derivatives of its base and exponent: the power rule if the
exponent does not change, the exponential rule if the base does not, and both together otherwise. -/
def powDerivative (base exponent dBase dExponent : Expr α) : Expr α :=
  if exponent.isConstant || dExponent.isConstantZero then
    mul (mul exponent dBase) (pow base (sub exponent (ofInt 1)))
  else if dBase.isConstantZero then
    mul (mul base.ln dExponent) (pow base exponent)
  else
    mul (pow base exponent) (add (mul dExponent base.ln) (div (mul exponent dBase) base))

/-- The derivative of a logarithm from the derivatives of its base and argument. Unless the base
does not change, the logarithm is the quotient of two natural ones. -/
def logDerivative (base argument : Expr α) (kind : LogBase) (dBase dArgument : Expr α) : Expr α :=
  if kind = .natural then
    div dArgument argument
  else if dBase.isConstantZero then
    div dArgument (mul argument base.ln)
  else
    div (sub (mul (div dArgument argument) base.ln) (mul argument.ln (div dBase base)))
      (pow base.ln (ofInt 2))

/-- The derivative with respect to a variable. -/
def derivative (v : Char) : Expr α → Expr α
  | num _ | const _ => ofInt 0
  | var id => if id = v then ofInt 1 else pending (var id) (var v) 1
  | add l r => add (l.derivative v) (r.derivative v)
  | sub l r => sub (l.derivative v) (r.derivative v)
  | mul l r => add (mul (l.derivative v) r) (mul l (r.derivative v))
  | div l r => div (sub (mul (l.derivative v) r) (mul l (r.derivative v))) (pow r (ofInt 2))
  | pow base exponent => powDerivative base exponent (base.derivative v) (exponent.derivative v)
  | log base argument kind =>
    logDerivative base argument kind (base.derivative v) (argument.derivative v)
  | pending n d order =>
    let raised := pending n d (order + 1)
    if (d.derivative v).isConstant then raised else mul raised (pending d (var v) 1)
  | sin a => mul (cos a) (a.derivative v)
  | cos a => mul (mul (ofInt (-1)) (sin a)) (a.derivative v)
  | tan a => mul (pow (cos a) (ofInt (-2))) (a.derivative v)

end Formula.Expr
