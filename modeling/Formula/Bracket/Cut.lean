import Formula.Bracket

/-!
# Cuts

A cut is a place in a text, seen from inside: what comes before, the character there, what comes
after, and how deep in brackets it is. Searching a text for an operator or a name is searching its
cuts.
-/

namespace Formula.Bracket

/-- A place in a text. -/
structure Cut where
  /-- The text before, nearest character first. -/
  before : List Char
  /-- The depth of the text before. -/
  depth : Int
  char : Char
  after : List Char

namespace Cut

/-- The text before, in reading order. -/
def left (k : Cut) : List Char :=
  k.before.reverse

/-- How many characters come before. -/
def place (k : Cut) : Nat :=
  k.before.length

/-- Does a word begin at the cut? -/
def begins (k : Cut) (word : List Char) : Bool :=
  word.isPrefixOf (k.char :: k.after)

/-- Is the cut outside all brackets? -/
def isOutside (k : Cut) : Bool :=
  k.depth == 0

end Cut

/-- The cuts of a text that follows the text `before`, which is given nearest character first and
has the given depth. -/
def cutsAfter (before : List Char) (depth : Int) : List Char → List Cut
  | [] => []
  | c :: rest => ⟨before, depth, c, rest⟩ :: cutsAfter (c :: before) (depth + rise c) rest

/-- The cuts of a text, one for each character. -/
def cuts (s : List Char) : List Cut :=
  cutsAfter [] 0 s

/-- Every cut of a text puts the text together again. -/
theorem eq_of_mem_cutsAfter {k : Cut} {before s : List Char} {d : Int}
    (h : k ∈ cutsAfter before d s) :
    before.reverse ++ s = k.left ++ k.char :: k.after := by
  induction s generalizing before d with
  | nil => simp [cutsAfter] at h
  | cons c rest ih =>
    simp only [cutsAfter, List.mem_cons] at h
    rcases h with rfl | h
    · rfl
    · simpa using ih h

/-- A text is made up of what stands before one of its cuts, the character there and what follows.
-/
theorem eq_of_mem_cuts {k : Cut} {s : List Char} (h : k ∈ cuts s) :
    s = k.left ++ k.char :: k.after := by
  simpa using eq_of_mem_cutsAfter h

/-! ## Searches -/

/-- The place of the first occurrence of a character outside all brackets. Brackets themselves are
never outside. -/
def placeOutside? (target : Char) (s : List Char) : Option Nat :=
  ((cuts s).find? fun k =>
    k.char == target && k.isOutside && !isOpening k.char && !isClosing k.char).map (·.place)

/-- The places in a text, counted from `place`, where a word begins, from left to right and without
overlaps: a new occurrence is looked for `skip` characters ahead. The empty word begins everywhere,
at the end too. -/
def occurrencesFrom (word : List Char) (place skip : Nat) : List Char → List Nat
  | [] => if skip = 0 ∧ word.isEmpty then [place] else []
  | c :: rest =>
    if skip = 0 ∧ word.isPrefixOf (c :: rest) then
      place :: occurrencesFrom word (place + 1) (word.length - 1) rest
    else occurrencesFrom word (place + 1) (skip - 1) rest

/-- The places outside all brackets where a word begins, among its occurrences from left to right
without overlaps. -/
def placesOutside (word s : List Char) : List Nat :=
  (occurrencesFrom word 0 0 s).filter fun place => depth (s.take place) == 0

end Formula.Bracket
