import Formula.Document.Value

/-!
# Documents

A document has sections with titles, and a section has keys with values. Titles and keys are unique:
what comes later takes the place of what came before. A key may be there without any values, when a
template asked for it.
-/

namespace Formula

/-- Entries under names, each name once, in the order in which the names came first. -/
structure Table (β : Type) where
  entries : List (List Char × β) := []
  nodup : (entries.map (·.1)).Nodup := by simp

namespace Table

variable {β : Type}

/-- The entry under a name. -/
def get? (t : Table β) (name : List Char) : Option β :=
  t.entries.lookup name

/-- Is there an entry under a name? -/
def has (t : Table β) (name : List Char) : Bool :=
  (t.get? name).isSome

/-- What a function makes of the names and their entries, in their order. -/
def map {γ : Type} (f : List Char × β → γ) (t : Table β) : List γ :=
  t.entries.map f

/-- An entry that is replaced keeps its place and its name. -/
theorem nodup_replace (t : Table β) (name : List Char) (entry : β) :
    ((t.entries.map fun old => if old.1 == name then (name, entry) else old).map (·.1)).Nodup := by
  have hnames : (fun old : List Char × β => (if old.1 == name then (name, entry) else old).1) =
      fun old => old.1 := by
    funext old
    split
    next h => exact (eq_of_beq h).symm
    · rfl
  rw [List.map_map, Function.comp_def, hnames]
  exact t.nodup

/-- An entry under a name that is new is put behind the others. -/
theorem nodup_append (t : Table β) {name : List Char} (h : ¬ t.has name = true) (entry : β) :
    ((t.entries ++ [(name, entry)]).map (·.1)).Nodup := by
  rw [List.map_append, List.nodup_append]
  refine ⟨t.nodup, List.nodup_cons.2 ⟨List.not_mem_nil, List.nodup_nil⟩, ?_⟩
  rintro other hother _ hname rfl
  obtain ⟨old, hold, rfl⟩ := List.mem_map.1 hother
  obtain hname := List.mem_singleton.1 hname
  exact h (List.lookup_isSome_iff.2 ⟨old, hold, beq_iff_eq.2 hname.symm⟩)

/-- The table with an entry under a name, in place of the one that was there. -/
def put (t : Table β) (name : List Char) (entry : β) : Table β :=
  if h : t.has name then
    ⟨t.entries.map fun old => if old.1 == name then (name, entry) else old,
      t.nodup_replace name entry⟩
  else ⟨t.entries ++ [(name, entry)], t.nodup_append h entry⟩

/-- The table of a list of entries, of which the later ones win. -/
def ofEntries (entries : List (List Char × β)) : Table β :=
  entries.foldl (fun t entry => put t entry.1 entry.2) {}

end Table

namespace Document

/-- The keys of a section with their values. -/
abbrev Section := Table (Option (List Value))

end Document

/-- The titles of a document with their sections. -/
abbrev Document := Table Document.Section

namespace Document

/-- Titles with keys that a document is expected to have. -/
abbrev Template := List (List Char × List (List Char))

/-- The section with every key that it lacks added without values. -/
def addKeys (section_ : Section) (keys : List (List Char)) : Section :=
  keys.foldl (fun s key => if Table.has s key then s else Table.put s key none) section_

/-- The document with every title and key of a template that it lacks. -/
def fill (d : Document) (template : Template) : Document :=
  template.foldl (fun d (title, keys) =>
    Table.put d title (addKeys ((Table.get? d title).getD {}) keys)) d

end Document

end Formula
