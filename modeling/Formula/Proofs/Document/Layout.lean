import Formula.Document.Reading

/-!
# Layouts of documents

How a document may be written: as titles and pairs one after the other (`Item`), with a gap behind
each of them. A gap is white space in which blank lines and comments may follow any end of a line
(`Padding`). The layouts are a relation between what is written and its text (`IsLayout`); which of
them a reader accepts is not said here.
-/

namespace Formula.Document

/-! ## Items -/

/-- A letter or an underscore, and letters, digits and underscores behind it. -/
def IsIdentifier : List Char → Prop
  | [] => False
  | c :: rest => (c.isAlpha = true ∨ c = '_') ∧ ∀ c ∈ rest, c.isAlphanum = true ∨ c = '_'

/-- The text of a value: a character or more, none of which is white space, a comma or a
semicolon. -/
def IsValueText (s : List Char) : Prop :=
  s ≠ [] ∧ ∀ c ∈ s, c.isWhitespace = false ∧ c ≠ ',' ∧ c ≠ ';'

/-- Spaces and tabs. -/
def IsSpaces (s : List Char) : Prop :=
  ∀ c ∈ s, c = ' ' ∨ c = '\t'

/-- A mark with spaces and tabs around it. -/
def Around (mark : Char) (s : List Char) : Prop :=
  ∃ a b, IsSpaces a ∧ IsSpaces b ∧ s = a ++ mark :: b

/-- Members written one after the other, with something behind each of them but the last and
something behind the last. -/
inductive Series {ι : Type} (Written : ι → List Char → Prop) (Between Behind : List Char → Prop) :
    List ι → List Char → Prop
  | last {x s e} : Written x s → Behind e → Series Written Between Behind [x] (s ++ e)
  | more {x s g xs t} : Written x s → Between g → Series Written Between Behind xs t →
      Series Written Between Behind (x :: xs) (s ++ g ++ t)

/-- What begins every member begins the series. -/
theorem Series.exists_start {ι : Type} {Written : ι → List Char → Prop}
    {Between Behind : List Char → Prop} {xs : List ι} {s : List Char} {P : Char → Prop}
    (hw : ∀ {x s}, Written x s → ∃ c rest, s = c :: rest ∧ P c)
    (h : Series Written Between Behind xs s) : ∃ c rest, s = c :: rest ∧ P c := by
  cases h with
  | last hs =>
    obtain ⟨c, rest, rfl, hc⟩ := hw hs
    exact ⟨c, _, rfl, hc⟩
  | more hs =>
    obtain ⟨c, rest, rfl, hc⟩ := hw hs
    exact ⟨c, _, rfl, hc⟩

/-- What stands in a document between its gaps: the title of a section, or a key with the texts of
its values. -/
inductive Item
  | title (name : List Char)
  | pair (key : List Char) (values : List (List Char))

/-- A row of values, with commas between them. -/
def IsValues : List (List Char) → List Char → Prop :=
  Series (fun value s => IsValueText value ∧ s = value) (Around ',') (· = [])

/-- How an item is written. -/
def Item.IsWritten : Item → List Char → Prop
  | title name, s => IsIdentifier name ∧ s = name
  | pair key values, s =>
    ∃ colon row, IsIdentifier key ∧ Around ':' colon ∧ IsValues values row ∧ s = key ++ colon ++ row

/-! ## Gaps -/

/-- A line, without its end, that is blank or a comment. -/
structure IsIdleLine (line : List Char) : Prop where
  end_not_mem : '\n' ∉ line
  idle : ∃ indent rest, line = indent ++ rest ∧ (∀ c ∈ indent, Text.isBlank c = true) ∧
    (rest = [] ∨ ∃ mark ∈ [['/', '/'], ['#'], ['%'], [';']], mark <+: rest)

/-- White space, with blank lines and comments put in behind ends of lines. -/
inductive Padding : List Char → Prop
  | nil : Padding []
  | blank {c s} : c.isWhitespace = true → Padding s → Padding (c :: s)
  | line {line s} : IsIdleLine line → Padding ('\n' :: s) → Padding ('\n' :: (line ++ '\n' :: s))

/-- What stands between items. -/
def IsGap (s : List Char) : Prop :=
  s ≠ [] ∧ Padding s

/-- What may stand before the first item: a line begins there. -/
def IsLead (s : List Char) : Prop :=
  Padding ('\n' :: s)

/-- What may stand behind the last item: the last line needs no end. -/
def IsTrail (s : List Char) : Prop :=
  Padding (s ++ ['\n'])

/-! ## Documents -/

/-- The sections of a document as they are written: each has a title and pairs of a key with the
texts of its values. -/
abbrev Outline := List (List Char × List (List Char × List (List Char)))

/-- The items of a document in their order. -/
def Outline.items (outline : Outline) : List Item :=
  outline.flatMap fun entry => .title entry.1 :: entry.2.map fun p => .pair p.1 p.2

/-- The text is a way to write the document. No section is without pairs. -/
structure IsLayout (outline : Outline) (text : List Char) : Prop where
  pairs : ∀ entry ∈ outline, entry.2 ≠ []
  written : ∃ lead body, IsLead lead ∧ Series Item.IsWritten IsGap IsTrail outline.items body ∧
    text = lead ++ body

/-! ## Classes of characters

The classes that the layouts speak of are those that the reader looks for. -/

/-- The characters between items are those that count as white space. -/
theorem isGap_eq (c : Char) : isGap c = c.isWhitespace := by
  simp only [isGap, isSpace, Char.isWhitespace, Bool.beq_eq_decide_eq]

/-- Spaces and tabs are recognized one by one. -/
theorem isSpaces_iff {s : List Char} : IsSpaces s ↔ ∀ c ∈ s, isSpace c = true := by
  simp only [IsSpaces, isSpace, Bool.or_eq_true, beq_iff_eq]

/-- The text of a value is recognized one character after the other. -/
theorem isValueText_iff {s : List Char} :
    IsValueText s ↔ s ≠ [] ∧ ∀ c ∈ s, isValueChar c = true := by
  simp only [IsValueText, isValueChar, ← isGap_eq, Bool.not_eq_true', Bool.or_eq_false_iff,
    beq_eq_false_iff_ne, and_assoc]

/-- An identifier is recognized by its first character and by the others. -/
theorem isIdentifier_cons {c : Char} {s : List Char} :
    IsIdentifier (c :: s) ↔ isIdentifierStart c = true ∧ ∀ c ∈ s, isIdentifierChar c = true := by
  simp only [IsIdentifier, isIdentifierStart, isIdentifierChar, Bool.or_eq_true, beq_iff_eq]

end Formula.Document
