import Formula.Decimal

/-!
# Shortest decimal form of a machine number

A binary number `mantissa · 2 ^ exponent` stands for every real that rounds to it. Among the decimal
grids, coarse to fine, `Binary.shortest` takes the first with a point in that interval, so no
shorter decimal reads back to the number; of two such points it takes the nearer, and of two equally
near ones the larger. All comparisons are between natural numbers.
-/

namespace Formula

/-- A positive binary number `mantissa · 2 ^ exponent`. Below a power of two the gap to the next
smaller number is only half as wide, which `halfGapBelow` records. -/
structure Binary where
  mantissa : Nat
  exponent : Int
  halfGapBelow : Bool

namespace Binary

/-- The point of the grid of multiples of `10 ^ place` that stands for the number, if one does: a
neighbour of the number on the grid that lies in its rounding interval. The ends of the interval
belong to it when the mantissa is even, since a tie is rounded to the even neighbour. -/
def onGrid? (b : Binary) (place : Int) : Option Nat :=
  let scale := Nat.pow 2 (b.exponent - 2).toNat * Nat.pow 10 (-place).toNat
  let unit := Nat.pow 2 (2 - b.exponent).toNat * Nat.pow 10 place.toNat
  let value := 4 * b.mantissa * scale
  let low := (4 * b.mantissa - if b.halfGapBelow then 1 else 2) * scale
  let high := (4 * b.mantissa + 2) * scale
  let inside := fun (t : Nat) =>
    if b.mantissa % 2 = 0 then decide (low ≤ t * unit) && decide (t * unit ≤ high)
    else decide (low < t * unit) && decide (t * unit < high)
  let below := value / unit
  let above := below + 1
  match inside below, inside above with
  | true, true => if value - below * unit < above * unit - value then some below else some above
  | true, false => some below
  | false, true => some above
  | false, false => none

/-- The number itself as digits and a power of ten. -/
def exact (b : Binary) : Nat × Int :=
  match b.exponent with
  | .ofNat e => (b.mantissa * Nat.pow 2 e, 0)
  | .negSucc e => (b.mantissa * Nat.pow 5 (e + 1), .negSucc e)

/-- Digits and power of ten of the coarsest grid, from `10 ^ place` on, that has a point for the
number. After `grids` failures it is written in full. -/
def firstOnGrid (b : Binary) : (grids : Nat) → (place : Int) → Nat × Int
  | 0, _ => b.exact
  | grids + 1, place =>
    match b.onGrid? place with
    | some digits => (digits, place)
    | none => b.firstOnGrid grids (place - 1)

/-- A place above every digit of the number: its bit length times an upper bound of `log₁₀ 2`. -/
def topPlace (b : Binary) : Int :=
  (b.mantissa.log2 + 1 + b.exponent) * 30103 / 100000 + 1

/-- The shortest digits that read back, with their power of ten. Seventeen digits always suffice, so
twenty grids reach them. -/
def shortest (b : Binary) : Nat × Int :=
  b.firstOnGrid 20 b.topPlace

end Binary

/-- The written form of a machine number, from its bits: one for the sign, eleven for the exponent
and 52 for the fraction. -/
def Decimal.ofFloat (x : Float) : Decimal :=
  let bits := x.toBits.toNat
  let negative := decide (bits / Nat.pow 2 63 % 2 = 1)
  let exponent : Nat := bits / Nat.pow 2 52 % Nat.pow 2 11
  let fraction : Nat := bits % Nat.pow 2 52
  let written := fun (b : Binary) => Decimal.finite negative b.shortest.1 b.shortest.2
  if exponent = 2047 then
    if fraction = 0 then .infinite negative else .notANumber
  else if exponent = 0 then
    if fraction = 0 then .finite negative 0 0 else written ⟨fraction, -1074, false⟩
  else
    written ⟨Nat.pow 2 52 + fraction, exponent - 1075,
      decide (fraction = 0) && decide (1 < exponent)⟩

/-- The machine number nearest to a written one. -/
def Decimal.toFloat : Decimal → Float
  | .finite negative digits exponent =>
    let magnitude := Float.ofScientific digits (decide (exponent < 0)) exponent.natAbs
    if negative then -magnitude else magnitude
  | .infinite negative => if negative then -1.0 / 0.0 else 1.0 / 0.0
  | .notANumber => 0.0 / 0.0

instance : Numeral Float where
  ofDecimal := Decimal.toFloat
  toDecimal := Decimal.ofFloat

end Formula
