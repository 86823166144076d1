/-!
# Brackets

Parentheses and square brackets in a text. `balanced` is the one test that tells the two kinds
apart; depth and partners count brackets of either kind alike, so they also answer on texts that are
not balanced. Places are counted in characters.
-/

namespace Formula.Bracket

/-- Does the character open a group? -/
def isOpening (c : Char) : Bool :=
  c == '(' || c == '['

/-- Does the character close a group? -/
def isClosing (c : Char) : Bool :=
  c == ')' || c == ']'

/-- The closing bracket of the same kind as an opening one. -/
def closer (c : Char) : Char :=
  if c = '(' then ')' else ']'

/-! ## Balance -/

/-- Is a text balanced after the brackets `opened`, innermost first, that still wait for their
partner? -/
def balancedAfter (opened : List Char) : List Char → Bool
  | [] => opened.isEmpty
  | c :: rest =>
    if isOpening c then balancedAfter (c :: opened) rest
    else if isClosing c then
      match opened with
      | [] => false
      | o :: outer => closer o == c && balancedAfter outer rest
    else balancedAfter opened rest

/-- Has every bracket a partner of its kind, closing brackets after their opening ones? -/
def balanced (s : List Char) : Bool :=
  balancedAfter [] s

/-! ## Depth -/

/-- What a character adds to the depth of the text after it. -/
def rise (c : Char) : Int :=
  if isOpening c then 1 else if isClosing c then -1 else 0

/-- The brackets that a text opens, less those that it closes. -/
def depth : List Char → Int
  | [] => 0
  | c :: rest => rise c + depth rest

/-! ## Partners -/

/-- How far into a text the bracket stands at which a count of open groups, starting from `count`,
comes back to zero. The count rises at characters that satisfy `up` and falls at those that satisfy
`down`. -/
def fallsToZero (up down : Char → Bool) (count : Nat) : List Char → Option Nat
  | [] => none
  | c :: rest =>
    if up c then (fallsToZero up down (count + 1) rest).map (· + 1)
    else if down c then
      if count ≤ 1 then some 0 else (fallsToZero up down (count - 1) rest).map (· + 1)
    else (fallsToZero up down count rest).map (· + 1)

/-- How far after its opening bracket, with which the text begins, a group closes. -/
def groupEnd? (s : List Char) : Option Nat :=
  match s with
  | [] => none
  | c :: _ => if isOpening c then fallsToZero isOpening isClosing 0 s else none

/-- How far before its closing bracket, with which the text read backward begins, a group opens. -/
def groupStart? (s : List Char) : Option Nat :=
  match s with
  | [] => none
  | c :: _ => if isClosing c then fallsToZero isClosing isOpening 0 s else none

/-- The place of the bracket that closes the group opened at a place. -/
def partner? (s : List Char) (place : Nat) : Option Nat :=
  (groupEnd? (s.drop place)).map (place + ·)

/-- The place of the bracket that opens the group closed at a place. -/
def partnerBack? (s : List Char) (place : Nat) : Option Nat :=
  if place < s.length then (groupStart? (s.take (place + 1)).reverse).map (place - ·) else none

/-! ## Groups -/

/-- The group with which a text begins, brackets included, and the text after it. -/
def splitGroup? (s : List Char) : Option (List Char × List Char) :=
  (groupEnd? s).map fun last => s.splitAt (last + 1)

/-- The text before the group with which a text ends, and the group. -/
def splitLastGroup? (s : List Char) : Option (List Char × List Char) :=
  (groupStart? s.reverse).map fun back => s.splitAt (s.length - 1 - back)

/-- What a text encloses when one pair of brackets, the first a parenthesis, encloses all of it. -/
def enclosed? : List Char → Option (List Char)
  | [] => none
  | c :: rest =>
    if c = '(' ∧ groupEnd? (c :: rest) = some rest.length then some rest.dropLast else none

/-- What a pair of brackets encloses is shorter than the whole. -/
theorem length_lt_of_enclosed? {s t : List Char} (h : enclosed? s = some t) :
    t.length < s.length := by
  cases s with
  | nil => simp [enclosed?] at h
  | cons c rest =>
    simp only [enclosed?, Option.ite_none_right_eq_some, Option.some.injEq] at h
    obtain ⟨-, rfl⟩ := h
    simp only [List.length_dropLast, List.length_cons]
    omega

/-- A text without the parentheses that enclose all of it. -/
def strip (s : List Char) : List Char :=
  match h : enclosed? s with
  | some t =>
    have := length_lt_of_enclosed? h
    strip t
  | none => s
termination_by s.length

/-- Taking off enclosing parentheses makes no text longer. -/
theorem length_strip_le (s : List Char) : (strip s).length ≤ s.length := by
  fun_induction strip s with
  | case1 s t _ shorter ih => exact Nat.le_trans ih (Nat.le_of_lt shorter)
  | case2 s _ => exact Nat.le_refl _

end Formula.Bracket
