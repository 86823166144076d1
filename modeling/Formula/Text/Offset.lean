/-!
# Lines and offsets

A line ends with a line feed; a carriage return just before the line feed belongs to the end. The
last line needs no end, and nothing after the last end is no line.

A place in a text is counted in characters or in the bytes of its UTF-8 form. The library counts in
characters, and the functions on offsets change between the two counts.
-/

namespace Formula.Text

/-! ## Lines -/

/-- A line given last character first, without the carriage return at its end. -/
def dropReturn : List Char → List Char
  | '\r' :: line => line
  | line => line

/-- The lines of a text that follows the part `line` of its first line, given last character
first. -/
def linesFrom (line : List Char) : List Char → List (List Char)
  | [] => if line.isEmpty then [] else [line.reverse]
  | c :: rest =>
    if c = '\n' then (dropReturn line).reverse :: linesFrom [] rest else linesFrom (c :: line) rest

/-- The lines of a text. -/
def lines (s : List Char) : List (List Char) :=
  linesFrom [] s

/-- Lines put together with line feeds between them. -/
def joinLines (ls : List (List Char)) : List Char :=
  ['\n'].intercalate ls

/-! ## Offsets -/

/-- The bytes that a text takes. -/
def byteSize : List Char → Nat
  | [] => 0
  | c :: rest => c.utf8Size + byteSize rest

/-- The byte at which the character at a place begins. -/
def byteOffset (s : List Char) (place : Nat) : Nat :=
  byteSize (s.take place)

/-- The place of the character that begins at a byte; none when the byte is inside a character or
beyond the end of the text. -/
def placeAt? : List Char → Nat → Option Nat
  | _, 0 => some 0
  | [], _ + 1 => none
  | c :: rest, byte + 1 =>
    if c.utf8Size ≤ byte + 1 then (placeAt? rest (byte + 1 - c.utf8Size)).map (· + 1) else none

/-- How many characters begin before a byte. -/
def placesBefore : List Char → Nat → Nat
  | _, 0 => 0
  | [], _ + 1 => 0
  | c :: rest, byte + 1 => placesBefore rest (byte + 1 - c.utf8Size) + 1

end Formula.Text
