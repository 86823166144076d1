import Formula.Decimal.Reader
import Formula.Decimal.Shortest
import Formula.Text.CharClass

/-!
# Values in documents

A value is written without a type and gets one from its text: whole numbers of 64 bits, other
numbers, `true` and `false`, and everything else as text.
-/

namespace Formula.Document

/-- A typed value. -/
inductive Value
  | text (s : List Char)
  | float (x : Float)
  | integer (n : Int)
  | boolean (b : Bool)

namespace Value

/-- Does an integer fit into a word of 64 bits? -/
def fitsWord (n : Int) : Bool :=
  decide (-(Nat.pow 2 63 : Nat) ≤ n) && decide (n < (Nat.pow 2 63 : Nat))

/-- The value that a text writes, white space at its ends not counted. An integer too large for a
word becomes another number. -/
def ofText (s : List Char) : Value :=
  let s := Text.trim s
  match (Decimal.readInt? s).filter fitsWord with
  | some n => integer n
  | none =>
    match Decimal.read? s with
    | some d => float d.toFloat
    | none =>
      if s = "true".toList then boolean true
      else if s = "false".toList then boolean false
      else text s

/-- The text of a value. -/
def toText : Value → List Char
  | text s => s
  | float x => Numeral.text x
  | integer n => (toString n).toList
  | boolean b => (if b then "true" else "false").toList

/-- The text, if the value is one. -/
def asText? : Value → Option (List Char)
  | text s => some s
  | _ => none

/-- The number, if the value is one; integers become machine numbers. -/
def asFloat? : Value → Option Float
  | float x => some x
  | integer n => some (Float.ofInt n)
  | _ => none

/-- The integer, if the value is one. -/
def asInteger? : Value → Option Int
  | integer n => some n
  | _ => none

/-- The truth value, if the value is one. -/
def asBoolean? : Value → Option Bool
  | boolean b => some b
  | _ => none

end Value

end Formula.Document
