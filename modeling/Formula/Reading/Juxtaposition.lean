import Formula.Bracket.Cut
import Formula.Reading.Symbol

/-!
# Omitted multiplication signs

Where a group or a function call stands directly behind another operand, a multiplication sign has
been left out. `restoreTimes` puts these signs back in two passes: first in front of groups and
calls, then behind closing parentheses. The places of the signs come as lists, so that inserting
them is an operation of its own. It wants its places from left to right, and the first pass does not
always find them so: a sign in front of a logarithm with a base lies before the signs inside the
base, which are found earlier. Then no text comes out.
-/

namespace Formula.Reading

open Formula.Bracket

/-- A text with multiplication signs in front of the given places, which are counted in the text of
which the first `done` characters are gone already. None when a place is among those or beyond the
end. -/
def insertTimesAfter? (done : Nat) : (places : List Nat) → (s : List Char) → Option (List Char)
  | [], s => some s
  | p :: ps, s =>
    if p < done ∨ s.length < p - done then none
    else (insertTimesAfter? p ps (s.drop (p - done))).map fun rest =>
      s.take (p - done) ++ '*' :: rest

/-- A text with multiplication signs in front of the given places, if these are in order. -/
def insertTimes? (places : List Nat) (s : List Char) : Option (List Char) :=
  insertTimesAfter? 0 places s

/-- The text before the function name with which a text ends, if it ends with one. Both texts are
given last character first. -/
def beforeName? (s : List Char) : Option (List Char) :=
  (Symbol.functions.find? fun f => f.name.reverse.isPrefixOf s).map fun f => s.drop f.name.length

/-- The place after a text, given last character first, if an operand ends there: at the start,
after an operator and inside an opening bracket none does. -/
def jointAfter? (s : List Char) : Option Nat :=
  match s with
  | [] => none
  | c :: _ => if Symbol.isOperatorChar c || c == '(' || c == '[' then none else some s.length

/-- The place where a sign is missing in front of the group that opens at a cut. With a function
name before the group it is in front of the name, and the base in square brackets of a general
logarithm may come between the name and the group. -/
def openJoint? (k : Cut) : Option Nat :=
  match k.before with
  | [] => none
  | p :: _ =>
    if k.char != '(' || p == '(' then none
    else if p == ']' then do
      let back ← groupStart? k.before
      jointAfter? (← beforeName? (k.before.drop (back + 1)))
    else if Symbol.isOperatorChar p then none
    else jointAfter? ((beforeName? k.before).getD k.before)

/-- The place where a sign is missing behind the group that closes at a cut. -/
def closeJoint? (k : Cut) : Option Nat :=
  match k.after with
  | [] => none
  | c :: _ =>
    if k.char != ')' || c == ')' || c == ']' || Symbol.isOperatorChar c then none
      else some (k.place + 1)

/-- The places where a sign is missing in front of groups and calls. -/
def openJoints (s : List Char) : List Nat :=
  (cuts s).filterMap openJoint?

/-- The places where a sign is missing behind groups. -/
def closeJoints (s : List Char) : List Nat :=
  (cuts s).filterMap closeJoint?

/-- A text with its omitted multiplication signs restored, if their places are found in order. -/
def restoreTimes? (s : List Char) : Option (List Char) := do
  let opened ← insertTimes? (openJoints s) s
  insertTimes? (closeJoints opened) opened

end Formula.Reading
