import Formula.Decimal

/-!
# Reading a written number

`Decimal.read?` takes an optional sign and then one of the words `inf`, `infinity`, `nan` in any
case, or digits with an optional point and an optional exponent. At least one digit stands before or
after the point, and digits are those of ASCII.
-/

namespace Formula.Decimal

/-- An optional sign: whether it is a minus, and the text after it. -/
def splitSign : List Char → Bool × List Char
  | '-' :: rest => (true, rest)
  | '+' :: rest => (false, rest)
  | s => (false, s)

/-- The natural number that a run of digits writes. -/
def natOfDigits (digits : List Char) : Nat :=
  digits.foldl (fun n c => 10 * n + (c.toNat - '0'.toNat)) 0

/-- A nonempty text of digits only, as a natural number. -/
def readNat? (s : List Char) : Option Nat :=
  if s.isEmpty then none else if s.all Char.isDigit then some (natOfDigits s) else none

/-- A nonempty text of digits with an optional sign, as an integer. -/
def readInt? (s : List Char) : Option Int :=
  let (negative, digits) := splitSign s
  (readNat? digits).map fun n => if negative then -(n : Int) else n

/-- The exponent part after the digits, which may be missing. -/
def readExponent? : List Char → Option Int
  | [] => some 0
  | c :: rest => if c = 'e' ∨ c = 'E' then readInt? rest else none

/-- The digits after the point, if there is a point, and the text after them. -/
def splitFraction : List Char → List Char × List Char
  | '.' :: rest => (rest.takeWhile Char.isDigit, rest.dropWhile Char.isDigit)
  | s => ([], s)

/-- Digits with an optional point and an optional exponent. -/
def readDigits? (negative : Bool) (s : List Char) : Option Decimal :=
  let whole := s.takeWhile Char.isDigit
  let (fraction, rest) := splitFraction (s.dropWhile Char.isDigit)
  if whole.isEmpty && fraction.isEmpty then none
  else (readExponent? rest).map fun e =>
    .finite negative (natOfDigits (whole ++ fraction)) (e - fraction.length)

/-- The words for numbers that are no fraction. -/
def readWord? (negative : Bool) (s : List Char) : Option Decimal :=
  let word := s.map Char.toLower
  if word = ['i', 'n', 'f'] ∨ word = ['i', 'n', 'f', 'i', 'n', 'i', 't', 'y'] then
    some (.infinite negative)
  else if word = ['n', 'a', 'n'] then some .notANumber
  else none

/-- The number that the whole text writes. -/
def read? (s : List Char) : Option Decimal :=
  let (negative, body) := splitSign s
  (readWord? negative body).or (readDigits? negative body)

end Formula.Decimal
