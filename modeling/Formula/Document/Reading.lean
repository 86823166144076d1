import Formula.Document
import Formula.Text.Offset
import Formula.Text.Quoted

/-!
# Reading documents

A document is a row of sections, a section a title with a row of pairs, and a pair a key and, after
a colon, a row of values with commas between them. Titles and keys look alike: an identifier is a
key when a colon follows it. Each row ends where its next member cannot be read, so a fault shows
only in the first member of a row; what is left over after the last section is a fault of its own.

A line whose first mark is `//`, `#`, `%` or `;` is a comment. Comments and blank lines are taken
out before a document is read.
-/

namespace Formula.Document

/-! ## Comments -/

/-- The marks that make a line a comment. -/
def commentMarks : List (List Char) :=
  [['/', '/'], ['#'], ['%'], [';']]

/-- Does a line say nothing: is it blank, or a comment? -/
def isIdle (line : List Char) : Bool :=
  let s := Text.trim line
  s.isEmpty || commentMarks.any (·.isPrefixOf s)

/-- A text without its comments and blank lines. -/
def withoutComments (s : List Char) : List Char :=
  Text.joinLines ((Text.lines s).filter (!isIdle ·))

/-! ## Characters -/

/-- A space or a tab. -/
def isSpace (c : Char) : Bool :=
  c == ' ' || c == '\t'

/-- A space, a tab or a character that ends a line. -/
def isGap (c : Char) : Bool :=
  isSpace c || c == '\r' || c == '\n'

/-- A letter of ASCII or an underscore, with which identifiers begin. -/
def isIdentifierStart (c : Char) : Bool :=
  c.isAlpha || c == '_'

/-- A letter or digit of ASCII or an underscore. -/
def isIdentifierChar (c : Char) : Bool :=
  c.isAlphanum || c == '_'

/-- A character that may be part of a value. -/
def isValueChar (c : Char) : Bool :=
  !(isGap c || c == ',' || c == ';')

/-! ## Faults -/

/-- What was looked for in vain. -/
inductive Missing
  /-- The start of an identifier, or a colon. -/
  | mark
  /-- The characters of a value. -/
  | value
deriving DecidableEq, Repr

/-- Where reading failed: the text left there, and what was looked for. -/
structure Fault where
  rest : List Char
  missing : Missing
deriving DecidableEq, Repr

/-- The report of a fault. -/
def Fault.message (f : Fault) : String :=
  let code := match f.missing with
    | .mark => "Tag"
    | .value => "TakeWhile1"
  "Error(Error \x7b input: " ++ String.ofList (Text.quoted f.rest) ++ ", code: " ++ code ++ " \x7d)"

/-- Why a text is no document. -/
inductive Error
  /-- Its first section cannot be read. -/
  | malformed (fault : Fault)
  /-- This is left over after the last section. -/
  | unread (rest : List Char)
deriving DecidableEq, Repr

/-- The report of an error. -/
def Error.message : Error → String
  | malformed fault => "Parsing error: " ++ fault.message
  | unread rest => "Failed to parse entire document. Remaining: '" ++ String.ofList rest ++ "'"

/-! ## Identifiers and values -/

/-- The identifier with which a text begins, and the text after it. -/
def identifier? : List Char → Option (List Char × List Char)
  | [] => none
  | c :: rest =>
    if isIdentifierStart c then
      some (c :: rest.takeWhile isIdentifierChar, rest.dropWhile isIdentifierChar)
    else none

/-- The value with which a text begins, and the text after it. -/
def value? : List Char → Option (Value × List Char)
  | [] => none
  | c :: rest =>
    if isValueChar c then
      some (Value.ofText (c :: rest.takeWhile isValueChar), rest.dropWhile isValueChar)
    else none

/-- Dropping characters makes no text longer. -/
theorem length_dropWhile_le (p : Char → Bool) (s : List Char) : (s.dropWhile p).length ≤ s.length :=
  (List.dropWhile_sublist p).length_le

/-- An identifier takes something off the text. -/
theorem length_lt_of_identifier? {s id rest : List Char} (h : identifier? s = some (id, rest)) :
    rest.length < s.length := by
  cases s with
  | nil => simp [identifier?] at h
  | cons c s =>
    simp only [identifier?] at h
    split at h
    · simp only [Option.some.injEq, Prod.mk.injEq] at h
      obtain ⟨-, rfl⟩ := h
      exact Nat.lt_succ_of_le (length_dropWhile_le _ s)
    · simp at h

/-- A value takes something off the text. -/
theorem length_lt_of_value? {s rest : List Char} {v : Value} (h : value? s = some (v, rest)) :
    rest.length < s.length := by
  cases s with
  | nil => simp [value?] at h
  | cons c s =>
    simp only [value?] at h
    split at h
    · simp only [Option.some.injEq, Prod.mk.injEq] at h
      obtain ⟨-, rfl⟩ := h
      exact Nat.lt_succ_of_le (length_dropWhile_le _ s)
    · simp at h

/-- The value after a comma with which a text begins, spaces around the comma not counted, and the
text after the value. -/
def nextValue? (s : List Char) : Option (Value × List Char) :=
  match s.dropWhile isSpace with
  | [] => none
  | c :: rest => if c = ',' then value? (rest.dropWhile isSpace) else none

/-- A comma with a value behind it takes something off the text. -/
theorem length_lt_of_nextValue? {s rest : List Char} {v : Value}
    (h : nextValue? s = some (v, rest)) :
    rest.length < s.length := by
  have hs := length_dropWhile_le isSpace s
  unfold nextValue? at h
  split at h
  · simp at h
  next c after heq =>
    split at h
    · have := length_lt_of_value? h
      have := length_dropWhile_le isSpace after
      simp only [heq, List.length_cons] at hs
      omega
    · simp at h

/-- The values that go on after a first one, each behind a comma, and the text after them. -/
def moreValues (s : List Char) : List Value × List Char :=
  match h : nextValue? s with
  | none => ([], s)
  | some (v, rest) =>
    have := length_lt_of_nextValue? h
    let (vs, rest) := moreValues rest
    (v :: vs, rest)
termination_by s.length

/-- Reading on for more values leaves no longer text. -/
theorem length_moreValues_le (s : List Char) : (moreValues s).2.length ≤ s.length := by
  fun_induction moreValues s with
  | case1 => exact Nat.le_refl _
  | case2 s v rest h shorter vs rest' hrec ih =>
    simp only [hrec] at ih
    exact Nat.le_trans ih (Nat.le_of_lt shorter)

/-! ## Pairs -/

/-- A key with its values. -/
abbrev Pair := List Char × List Value

/-- The values after a key and its colon, and the text after them. -/
def values (s : List Char) : Except Fault (List Value × List Char) :=
  match value? s with
  | none => .error ⟨s, .value⟩
  | some (v, rest) =>
    let (vs, rest) := moreValues rest
    .ok (v :: vs, rest)

/-- The pair with which a text begins, and the text after it. -/
def pair (s : List Char) : Except Fault (Pair × List Char) :=
  match identifier? s with
  | none => .error ⟨s, .mark⟩
  | some (key, rest) =>
    match rest.dropWhile isSpace with
    | [] => .error ⟨[], .mark⟩
    | c :: rest =>
      if c = ':' then do
        let (vs, rest) ← values (rest.dropWhile isSpace)
        return ((key, vs), rest)
      else .error ⟨c :: rest, .mark⟩

/-- A row of values takes something off the text. -/
theorem length_lt_of_values {s rest : List Char} {vs : List Value} (h : values s = .ok (vs, rest)) :
    rest.length < s.length := by
  unfold values at h
  split at h
  · simp at h
  next v after hv =>
    have := length_lt_of_value? hv
    have := length_moreValues_le after
    simp only [Except.ok.injEq, Prod.mk.injEq] at h
    obtain ⟨-, rfl⟩ := h
    omega

/-- A pair takes something off the text. -/
theorem length_lt_of_pair {s rest : List Char} {p : Pair} (h : pair s = .ok (p, rest)) :
    rest.length < s.length := by
  unfold pair at h
  split at h
  · simp at h
  next key after hid =>
    have := length_lt_of_identifier? hid
    have hs := length_dropWhile_le isSpace after
    split at h
    · simp at h
    next c tail heq =>
      simp only [heq, List.length_cons] at hs
      split at h
      · cases hv : values (tail.dropWhile isSpace) with
        | error e => simp [hv, bind, Except.bind] at h
        | ok r =>
          obtain ⟨vs, after⟩ := r
          have := length_lt_of_values hv
          have := length_dropWhile_le isSpace tail
          simp only [hv, bind, Except.bind, pure, Except.pure, Except.ok.injEq, Prod.mk.injEq] at h
          obtain ⟨-, rfl⟩ := h
          omega
      · simp at h

/-- The pairs with which a text begins, gaps after each of them not counted, and the text after
them. -/
def morePairs (s : List Char) : List Pair × List Char :=
  match h : pair s with
  | .error _ => ([], s)
  | .ok (p, rest) =>
    have := length_lt_of_pair h
    have := length_dropWhile_le isGap rest
    let (ps, rest) := morePairs (rest.dropWhile isGap)
    (p :: ps, rest)
termination_by s.length

/-- Reading on for more pairs leaves no longer text. -/
theorem length_morePairs_le (s : List Char) : (morePairs s).2.length ≤ s.length := by
  fun_induction morePairs s with
  | case1 => exact Nat.le_refl _
  | case2 s p rest h shorter gap ps rest' hrec ih =>
    simp only [hrec] at ih
    exact Nat.le_trans ih (Nat.le_trans gap (Nat.le_of_lt shorter))

/-! ## Sections -/

/-- The section of some pairs, of which the later ones win. -/
def Section.ofPairs (pairs : List Pair) : Section :=
  Table.ofEntries (pairs.map fun p => (p.1, some p.2))

/-- The section with which a text begins, with its title, and the text after it. -/
def titledSection (s : List Char) : Except Fault ((List Char × Section) × List Char) :=
  match identifier? s with
  | none => .error ⟨s, .mark⟩
  | some (title, rest) => do
    let (first, rest) ← pair (rest.dropWhile isGap)
    let (more, rest) := morePairs (rest.dropWhile isGap)
    return ((title, Section.ofPairs (first :: more)), rest)

/-- A section takes something off the text. -/
theorem length_lt_of_titledSection {s rest : List Char} {t : List Char × Section}
    (h : titledSection s = .ok (t, rest)) : rest.length < s.length := by
  unfold titledSection at h
  split at h
  · simp at h
  next title after hid =>
    have := length_lt_of_identifier? hid
    have := length_dropWhile_le isGap after
    cases hp : pair (after.dropWhile isGap) with
    | error e => simp [hp, bind, Except.bind] at h
    | ok r =>
      obtain ⟨first, tail⟩ := r
      have := length_lt_of_pair hp
      have := length_dropWhile_le isGap tail
      have := length_morePairs_le (tail.dropWhile isGap)
      simp only [hp, bind, Except.bind, pure, Except.pure, Except.ok.injEq, Prod.mk.injEq] at h
      obtain ⟨-, rfl⟩ := h
      omega

/-- The sections with which a text begins, and the text after them. Gaps around sections do not
count. -/
def moreSections (s : List Char) : List (List Char × Section) × List Char :=
  match h : titledSection s with
  | .error _ => ([], s)
  | .ok (t, rest) =>
    have := length_lt_of_titledSection h
    have := length_dropWhile_le isGap rest
    let (ts, rest) := moreSections (rest.dropWhile isGap)
    (t :: ts, rest)
termination_by s.length

/-- The document with which a text without comments begins, and the text after it. The first section
decides whether there is one. -/
def sections (s : List Char) : Except Fault (Document × List Char) := do
  let (first, rest) ← titledSection (s.dropWhile isGap)
  let (more, rest) := moreSections (rest.dropWhile isGap)
  return (Table.ofEntries (first :: more), rest)

/-- The document that a text is. Comments are taken out first, and nothing but white space may be
left over. -/
def read (s : List Char) : Except Error Document :=
  match sections (withoutComments s) with
  | .error fault => .error (.malformed fault)
  | .ok (d, rest) => if (Text.trim rest).isEmpty then .ok d else .error (.unread rest)

/-- The document that a text is, with what it lacks of a template. -/
def readAs (template : Template) (s : List Char) : Except Error Document :=
  (read s).map (fill · template)

end Formula.Document
