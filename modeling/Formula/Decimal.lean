import Formula.Scalar

/-!
# Decimal numbers

A number as it is written: a sign, digits and a power of ten, or one of the values that are no
fraction. `Decimal.text` writes it in positional notation, however long that gets, and never with an
exponent. `Numeral α` ties a type of scalars to its written form, which is all that printing and
reading formulas need to know of it.
-/

namespace Formula

/-- A written number. -/
inductive Decimal
  /-- The value `digits · 10 ^ exponent` with a sign, which zero has too. -/
  | finite (negative : Bool) (digits : Nat) (exponent : Int)
  | infinite (negative : Bool)
  | notANumber
deriving DecidableEq, Repr

namespace Decimal

/-- Is the number an ordinary one, neither infinite nor undefined? -/
def isFinite : Decimal → Bool
  | finite .. => true
  | _ => false

/-- Does the number carry a minus sign? What is not a number has no sign. -/
def isNegative : Decimal → Bool
  | finite negative .. => negative
  | infinite negative => negative
  | notANumber => false

/-- The minus sign of a written number, if it has one. -/
def sign (negative : Bool) : List Char :=
  if negative then ['-'] else []

/-- The digits of `digits · 10 ^ exponent` in positional notation: whole numbers have no point, and
a negative exponent is the count of places after the point. -/
def positional (digits : Nat) : Int → List Char
  | .ofNat zeros => Nat.toDigits 10 (digits * Nat.pow 10 zeros)
  | .negSucc p =>
    let unit := Nat.pow 10 (p + 1)
    Nat.toDigits 10 (digits / unit) ++ '.' :: (Nat.toDigits 10 (digits % unit)).leftpad (p + 1) '0'

/-- The written form of a number. -/
def text : Decimal → List Char
  | finite negative digits exponent => sign negative ++ positional digits exponent
  | infinite negative => sign negative ++ ['i', 'n', 'f']
  | notANumber => ['N', 'a', 'N']

end Decimal

/-- Scalars that can be written and read. -/
class Numeral (α : Type) extends Scalar α where
  /-- The scalar nearest to a written number. -/
  ofDecimal : Decimal → α
  /-- How a scalar is written. -/
  toDecimal : α → Decimal

namespace Numeral

variable {α : Type} [Numeral α]

/-- The written form of a scalar. -/
def text (a : α) : List Char :=
  (toDecimal a).text

/-- Is the scalar an ordinary number? -/
def isFinite (a : α) : Bool :=
  (toDecimal a).isFinite

/-- Is the scalar written with a minus sign? -/
def isNegative (a : α) : Bool :=
  (toDecimal a).isNegative

end Numeral

end Formula
