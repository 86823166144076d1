import Formula.Document
import Formula.Proofs.Lookup

/-!
# Lookups

A table is known by what is found under its names. What comes last under a name is found there
(`Table.get?_ofEntries`), and filling a document with a template changes nothing that is found in
it, but adds what was not there (`Document.has_fill`, `Document.lookup?_fill`).
-/

namespace Formula

namespace Table

variable {β : Type}

/-- Replacing what is under a name changes what is found there, if there was something. -/
theorem lookup_replace (entries : List (List Char × β)) (name : List Char) (entry : β)
    (other : List Char) :
    (entries.map fun old => if old.1 == name then (name, entry) else old).lookup other =
      if name = other then (entries.lookup name).map fun _ => entry else entries.lookup other := by
  induction entries with
  | nil => split <;> rfl
  | cons old entries ih =>
    rw [List.map_cons, lookup_cons, lookup_cons, lookup_cons, ih]
    by_cases hold : old.1 = name <;> by_cases hother : name = other <;> grind

/-- What is put under a name is found there, and what was under the others is still found. -/
theorem get?_put (t : Table β) (name : List Char) (entry : β) (other : List Char) :
    get? (put t name entry) other = if name = other then some entry else get? t other := by
  unfold put
  split
  next hhas =>
    obtain ⟨old, hold⟩ := Option.isSome_iff_exists.1 hhas
    rw [get?] at hold
    simp only [get?, lookup_replace, hold, Option.map_some]
  next hhas =>
    have hnone : t.entries.lookup name = none := Option.not_isSome_iff_eq_none.1 hhas
    simp only [get?, List.lookup_append, lookup_cons, List.lookup_nil]
    by_cases h : name = other
    · rw [← h, hnone, if_pos rfl, Option.none_or]
    · rw [if_neg h, if_neg h, Option.or_none]

/-- The last of the entries under a name. -/
def last? (entries : List (List Char × β)) (name : List Char) : Option β :=
  entries.reverse.lookup name

/-- In a table of entries the last one is found under each name. -/
theorem get?_ofEntries (entries : List (List Char × β)) (name : List Char) :
    get? (ofEntries entries) name = last? entries name := by
  have hfold : ∀ t : Table β, get? (entries.foldl (fun t entry => put t entry.1 entry.2) t) name =
      (last? entries name).or (get? t name) := by
    induction entries with
    | nil => exact fun t => rfl
    | cons entry entries ih =>
      intro t
      rw [List.foldl_cons, ih, get?_put, last?, last?, List.reverse_cons, List.lookup_append,
        lookup_cons, Option.or_assoc]
      split <;> rfl
  exact (hfold {}).trans Option.or_none

/-- The names of a table of entries are those of the entries. -/
theorem has_ofEntries (entries : List (List Char × β)) (name : List Char) :
    has (ofEntries entries) name = true ↔ name ∈ entries.map (·.1) := by
  rw [has, get?_ofEntries, last?, List.lookup_isSome_iff, List.mem_map]
  simp only [List.mem_reverse, beq_iff_eq, eq_comm (a := name)]

/-- The last entry under a name is one of the entries. -/
theorem mem_of_last? {entries : List (List Char × β)} {name : List Char} {entry : β}
    (h : last? entries name = some entry) : (name, entry) ∈ entries :=
  List.mem_reverse.1 (mem_of_lookup h)

/-- Under a name that has no last entry there is none at all. -/
theorem not_mem_of_last?_eq_none {entries : List (List Char × β)} {name : List Char}
    (h : last? entries name = none) (entry : β) : (name, entry) ∉ entries :=
  fun hmem => not_mem_of_lookup_eq_none h entry (List.mem_reverse.2 hmem)

/-- A function of the entries is applied to the last one. -/
theorem last?_map {γ : Type} (f : β → γ) (entries : List (List Char × β)) (name : List Char) :
    last? (entries.map fun entry => (entry.1, f entry.2)) name = (last? entries name).map f := by
  rw [last?, ← List.map_reverse, lookup_map, last?]

end Table

namespace Document

/-- What is found under a key of the section under a title: nothing if one of them is missing, and
otherwise the values, if there are any. -/
def lookup? (d : Document) (title key : List Char) : Option (Option (List Value)) :=
  (Table.get? d title).bind fun section_ => Table.get? section_ key

/-- Does a template ask for a key under a title? -/
def Template.Asks (template : Template) (title key : List Char) : Prop :=
  ∃ entry ∈ template, entry.1 = title ∧ key ∈ entry.2

instance (template : Template) (title key : List Char) : Decidable (template.Asks title key) :=
  inferInstanceAs (Decidable (∃ entry ∈ template, entry.1 = title ∧ key ∈ entry.2))

/-- A template asks for what its first entry asks for, or the others. -/
theorem Template.asks_cons (entry : List Char × List (List Char)) (template : Template)
    (title key : List Char) :
    Template.Asks (entry :: template) title key ↔ (entry.1 = title ∧ key ∈ entry.2) ∨
      template.Asks title key := by
  simp only [Template.Asks, List.mem_cons, exists_eq_or_imp]

/-- Keys that a section lacks are added without values, and nothing else changes. -/
theorem get?_addKeys (s : Section) (keys : List (List Char)) (key : List Char) :
    Table.get? (addKeys s keys) key = (Table.get? s key).or
      (if key ∈ keys then some none else none) := by
  unfold addKeys
  induction keys generalizing s with
  | nil => exact Option.or_none.symm
  | cons first keys ih =>
    rw [List.foldl_cons, ih]
    have hstep : Table.get? (if Table.has s first then s else Table.put s first none) key =
        (Table.get? s key).or (if key = first then some none else none) := by
      rw [Table.has]
      cases hfirst : Table.get? s first with
      | some values =>
        rw [Option.isSome_some, if_pos rfl]
        by_cases h : key = first
        · rw [h, hfirst, Option.some_or]
        · rw [if_neg h, Option.or_none]
      | none =>
        rw [Option.isSome_none, if_neg Bool.false_ne_true, Table.get?_put]
        by_cases h : key = first
        · rw [h, hfirst, if_pos rfl, Option.none_or]
        · rw [if_neg (Ne.symm h), if_neg h, Option.or_none]
    rw [hstep, Option.or_assoc]
    congr 1
    by_cases h : key = first <;> simp [h]

/-- A filled document has its own titles and those of the template. -/
theorem has_fill (d : Document) (template : Template) (title : List Char) :
    Table.has (fill d template) title = true ↔ Table.has d title = true ∨
      title ∈ template.map (·.1) := by
  unfold fill
  induction template generalizing d with
  | nil => simp
  | cons entry template ih =>
    rw [List.foldl_cons, ih]
    simp only [Table.has, Table.get?_put]
    grind

/-- Filling a document adds the keys that the template asks for, without values, and changes no
others. -/
theorem lookup?_fill (d : Document) (template : Template) (title key : List Char) :
    (fill d template).lookup? title key =
      (d.lookup? title key).or (if template.Asks title key then some none else none) := by
  unfold fill
  induction template generalizing d with
  | nil =>
    rw [List.foldl_nil, if_neg (by simp [Template.Asks]), Option.or_none]
  | cons first template ih =>
    obtain ⟨name, keys⟩ := first
    rw [List.foldl_cons, ih]
    have hstep : lookup? (Table.put d name (addKeys ((Table.get? d name).getD {}) keys)) title key =
        (d.lookup? title key).or (if name = title ∧ key ∈ keys then some none else none) := by
      rw [lookup?, Table.get?_put]
      by_cases h : name = title
      · subst h
        rw [if_pos rfl, Option.bind_some, get?_addKeys, lookup?]
        cases Table.get? d name <;> simp [Table.get?]
      · rw [if_neg h, if_neg fun hboth => h hboth.1, Option.or_none, lookup?]
    rw [hstep, Option.or_assoc]
    congr 1
    simp only [Template.asks_cons]
    by_cases h : name = title ∧ key ∈ keys <;> simp [h]

end Document

end Formula
