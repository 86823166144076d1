import Formula.Decimal.Reader
import Formula.Text.CharClass

/-!
# Number literals

Which texts are literals, told by an automaton: its phases are the parts of a literal, and a text is
one when the run over its characters ends in a phase where a literal may stop. Digits are those of
any script, so the test knows more digits than the reader of `Formula.Decimal.Reader`; on ASCII text
both take the same texts.
-/

namespace Formula.Literal

/-- How much of an unsigned literal has been seen. -/
inductive Phase
  | start
  /-- Digits before any point. -/
  | whole
  /-- A point with no digit before it. -/
  | barePoint
  /-- A point with a digit next to it, and what follows it. -/
  | fraction
  /-- The mark `e` of an exponent. -/
  | mark
  /-- The sign of an exponent. -/
  | markSign
  /-- The digits of an exponent. -/
  | exponent
deriving DecidableEq

/-- The phase after one more character, if a literal may go on with it. -/
def Phase.next (p : Phase) (c : Char) : Option Phase :=
  let isDigit := Text.isDecimalDigit c
  let isMark := c == 'e' || c == 'E'
  match p with
  | .start => if isDigit then some .whole else if c = '.' then some .barePoint else none
  | .whole =>
    if isDigit then some .whole else if c = '.' then some .fraction
    else if isMark then some .mark else none
  | .barePoint => if isDigit then some .fraction else none
  | .fraction => if isDigit then some .fraction else if isMark then some .mark else none
  | .mark =>
    if isDigit then some .exponent else if c = '+' ∨ c = '-' then some .markSign else none
  | .markSign => if isDigit then some .exponent else none
  | .exponent => if isDigit then some .exponent else none

/-- May a literal stop in the phase? -/
def Phase.isFinal : Phase → Bool
  | .whole | .fraction | .exponent => true
  | _ => false

/-- Is the whole text an unsigned literal in digits? -/
def isDigits (s : List Char) : Bool :=
  (s.foldlM Phase.next .start).any Phase.isFinal

/-- The words for numbers that are no fraction. -/
def words : List (List Char) :=
  ["inf".toList, "infinity".toList, "nan".toList]

/-- Is the text one of the words, in small or capital letters? -/
def isWord (s : List Char) : Bool :=
  words.contains (s.map Char.toLower)

/-- Is the whole text a literal: an optional sign, and then digits or a word? -/
def isLiteral (s : List Char) : Bool :=
  let body := (Decimal.splitSign s).2
  isDigits body || isWord body

end Formula.Literal
