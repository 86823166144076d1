import Formula.Decimal.Shortest
import Formula.Expr.Simplification

/-!
# Finite differences

Checking a derivative by numbers: the derivative of an expression is compared, at evenly spaced
points, with the centred difference quotient of the expression itself. The answer is one number, the
distance of the two rows of values.
-/

namespace Formula

/-- Evenly spaced points from `start` to `stop`. Fewer than two points stay at the start. -/
def grid (start stop : Float) (count : Nat) : List Float :=
  if count < 2 then List.replicate count start
  else
    let step := (stop - start) / (Float.ofNat count - 1.0)
    (List.range count).map fun i => start + Float.ofNat i * step

/-- The centred difference quotients of a function at some points, with steps of `h` to either
side. -/
def differenceQuotients (f : Float → Float) (points : List Float) (h : Float) : List Float :=
  points.map fun x => (f (x + h) - f (x - h)) / (2.0 * h)

/-- The square root of the sum of squared differences of two rows of equal length, divided by the
length. Empty rows have no distance. -/
def distance (xs ys : List Float) : Float :=
  if xs.isEmpty then 0.0
  else
    let squares := (xs.zip ys).map fun (x, y) => (x - y) * (x - y)
    1.0 / Float.ofNat xs.length * Float.sqrt (squares.foldl (· + ·) 0.0)

namespace Expr

/-- The expression as a function of one variable, all others at zero. Where it has no value it is
not a number. -/
def asFunction (e : Expr Float) (v : Char) (x : Float) : Float :=
  match e.evaluate (.ofList [(v, x)]) with
  | .ok value => value
  | .error _ => 0.0 / 0.0

/-- The step of the difference quotients: a ten-thousandth of the distance between two points, or
`1e-5` when there are no two. -/
def checkStep (start stop : Float) (count : Nat) : Float :=
  if 1 < count then 1.0 / 1e4 * (stop - start) / (Float.ofNat count - 1.0) else 1e-5

/-- How far the derivative of an expression is from its difference quotients at evenly spaced
points. The expression and its derivative must have values at all of them. -/
def derivativeDistance (e : Expr Float) (v : Char) (start stop : Float) (count : Nat) :
    Except (EvaluationError Float) Float := do
  let slope := (e.derivative v).simplify
  let points := grid start stop count
  let slopes ← points.mapM fun x => do
    let value ← slope.evaluate (.ofList [(v, x)])
    let _ ← e.evaluate (.ofList [(v, x)])
    return value
  return distance slopes (differenceQuotients (e.asFunction v) points (checkStep start stop count))

/-- The distance of `derivativeDistance`, and whether it stays below a limit. -/
def checkDerivative (e : Expr Float) (v : Char) (start stop : Float) (count : Nat) (limit : Float) :
    Except (EvaluationError Float) (Float × Bool) := do
  let d ← e.derivativeDistance v start stop count
  return (d, d < limit)

end Expr

end Formula
