import Formula.Proofs.Document.Comment
import Formula.Proofs.Document.Table

/-!
# Documents are read back

Each part of a layout is read as far as it goes and no further: an identifier or a value up to a
character that is none of its own, a row of values up to white space without a comma behind it, the
pairs of a section up to an identifier without a colon behind it, which is the next title. So the
document that was written is found again (`exists_read_of_isLayout`).
-/

namespace Formula.Document

variable {s t u row : List Char}

/-! ## Identifiers and values -/

/-- Spaces are skipped up to the first character that is none. -/
theorem dropWhile_isSpace_append (hs : IsSpaces s) (ht : ∀ c ∈ t.head?, isSpace c = false) :
    (s ++ t).dropWhile isSpace = t :=
  dropWhile_append_of_stop (isSpaces_iff.1 hs) ht

/-- An identifier is read up to the first character that cannot belong to it. -/
theorem identifier?_append (hs : IsIdentifier s) (ht : ∀ c ∈ t.head?, isIdentifierChar c = false) :
    identifier? (s ++ t) = some (s, t) := by
  cases s with
  | nil => exact hs.elim
  | cons c s =>
    obtain ⟨hstart, hrest⟩ := isIdentifier_cons.1 hs
    rw [List.cons_append, identifier?, if_pos hstart, takeWhile_append_of_stop hrest ht,
      dropWhile_append_of_stop hrest ht]

/-- A value is read up to the first character that cannot belong to it. -/
theorem value?_append (hs : IsValueText s) (ht : ∀ c ∈ t.head?, isValueChar c = false) :
    value? (s ++ t) = some (Value.ofText s, t) := by
  obtain ⟨hne, hchars⟩ := isValueText_iff.1 hs
  cases s with
  | nil => exact absurd rfl hne
  | cons c s =>
    rw [List.forall_mem_cons] at hchars
    rw [List.cons_append, value?, if_pos hchars.1, takeWhile_append_of_stop hchars.2 ht,
      dropWhile_append_of_stop hchars.2 ht]

/-! ## What stands behind an item -/

/-- The text is empty or begins with white space, and behind white space there is nothing or a
letter or underscore. -/
structure Closes (t : List Char) : Prop where
  head : ∀ c ∈ t.head?, isGap c = true
  next : ∀ c ∈ (t.dropWhile isGap).head?, isIdentifierStart c = true

/-- A class of characters without the four of white space holds no gap. -/
theorem not_of_isGap {p : Char → Bool}
    (hp : p ' ' = false ∧ p '\t' = false ∧ p '\r' = false ∧ p '\n' = false) {c : Char}
    (h : isGap c = true) : p c = false := by
  simp only [isGap, isSpace, Bool.or_eq_true, beq_iff_eq] at h
  rcases h with ((rfl | rfl) | rfl) | rfl
  · exact hp.1
  · exact hp.2.1
  · exact hp.2.2.1
  · exact hp.2.2.2

/-- A class of characters without the four of white space does not hold the first character of a
text that closes a row of values. -/
theorem Closes.stop (h : Closes t) {p : Char → Bool}
    (hp : p ' ' = false ∧ p '\t' = false ∧ p '\r' = false ∧ p '\n' = false) :
    ∀ c ∈ t.head?, p c = false :=
  fun c hc => not_of_isGap hp (h.head c hc)

/-- Spaces skipped before a gap make no difference. -/
theorem dropWhile_isGap (t : List Char) :
    (t.dropWhile isSpace).dropWhile isGap = t.dropWhile isGap := by
  have hspaces : ∀ c ∈ t.takeWhile isSpace, isGap c = true := fun c hc => by
    rw [isGap, List.mem_takeWhile_imp hc, Bool.true_or, Bool.true_or]
  have hdrop : (t.takeWhile isSpace ++ t.dropWhile isSpace).dropWhile isGap =
    (t.dropWhile isSpace).dropWhile isGap :=
    List.dropWhile_append_of_pos hspaces
  rw [List.takeWhile_append_dropWhile] at hdrop
  exact hdrop.symm

/-- A mark that is neither white space nor begins an identifier is not found behind spaces. -/
theorem Closes.ne_mark (h : Closes t) (mark : Char) (hgap : isGap mark = false)
    (hstart : isIdentifierStart mark = false) : ∀ c ∈ (t.dropWhile isSpace).head?, c ≠ mark := by
  rintro c hc rfl
  have hnext := h.next c
  rw [← dropWhile_isGap] at hnext
  cases hd : t.dropWhile isSpace with
  | nil => simp [hd] at hc
  | cons d rest =>
    rw [hd] at hc hnext
    obtain rfl : d = c := Option.some.inj hc
    rw [List.dropWhile_cons_of_neg (Bool.eq_false_iff.1 hgap)] at hnext
    exact Bool.false_ne_true (hstart.symm.trans (hnext rfl))

/-! ## Rows of values -/

/-- Where no value follows, reading stops. -/
theorem moreValues_of_none (h : nextValue? s = none) : moreValues s = ([], s) := by
  rw [moreValues]
  split <;> simp_all

/-- Where a value follows, reading goes on behind it. -/
theorem moreValues_of_some {v : Value} (h : nextValue? s = some (v, t)) :
    moreValues s = (v :: (moreValues t).1, (moreValues t).2) := by
  rw [moreValues]
  split <;> simp_all

/-- No value follows where a row is closed. -/
theorem Closes.nextValue? (h : Closes t) : nextValue? t = none := by
  have hcomma := h.ne_mark ',' (by decide) (by decide)
  unfold Document.nextValue?
  split
  · rfl
  next c rest hd => exact if_neg (hcomma c (by rw [hd]; rfl))

/-- A row of values begins with a character of a value. -/
theorem IsValues.exists_start {values : List (List Char)} (h : IsValues values s) :
    ∃ c rest, s = c :: rest ∧ isValueChar c = true := by
  refine Series.exists_start (fun {value s} hs => ?_) h
  obtain ⟨hvalue, rfl⟩ := hs
  obtain ⟨hne, hchars⟩ := isValueText_iff.1 hvalue
  cases s with
  | nil => exact absurd rfl hne
  | cons c rest => exact ⟨c, rest, rfl, hchars c (.head _)⟩

/-- No character of a value is a space. -/
theorem isSpace_of_isValueChar {c : Char} (h : isValueChar c = true) : isSpace c = false := by
  simp only [isValueChar, isGap, Bool.not_eq_true', Bool.or_eq_false_iff] at h
  exact h.1.1.1.1

/-- A row of values begins with no space. -/
theorem IsValues.stop {values : List (List Char)} (h : IsValues values row) (t : List Char) :
    ∀ c ∈ (row ++ t).head?, isSpace c = false := by
  obtain ⟨c, rest, rfl, hc⟩ := h.exists_start
  rintro _ ⟨⟩
  exact isSpace_of_isValueChar hc

/-- What stands around a mark begins with a space, a tab or the mark. -/
theorem Around.head {mark : Char} (h : Around mark s) {p : Char → Bool} (hmark : p mark = false)
    (hp : p ' ' = false ∧ p '\t' = false) : ∀ c ∈ (s ++ t).head?, p c = false := by
  obtain ⟨a, b, ha, -, rfl⟩ := h
  cases a with
  | nil =>
    rintro _ ⟨⟩
    exact hmark
  | cons d a =>
    rintro _ ⟨⟩
    rcases ha d (.head _) with rfl | rfl
    · exact hp.1
    · exact hp.2

/-- Behind a comma, with spaces around it, a value is looked for. -/
theorem nextValue?_around {mark : List Char} (hmark : Around ',' mark)
    (ht : ∀ c ∈ t.head?, isSpace c = false) :
    nextValue? (mark ++ t) = value? t := by
  obtain ⟨a, b, ha, hb, rfl⟩ := hmark
  have hcomma : ∀ c ∈ (',' :: (b ++ t)).head?, isSpace c = false := by
    rintro _ ⟨⟩
    decide
  rw [nextValue?, List.append_assoc, List.cons_append, dropWhile_isSpace_append ha hcomma]
  simp only [if_true, dropWhile_isSpace_append hb ht]

/-- The values of a row are read one by one, and none of what stands behind the row. -/
theorem IsValues.exists_value? {values : List (List Char)} (h : IsValues values row)
    (ht : Closes t) :
    ∃ v rest, value? (row ++ t) = some (v, rest) ∧ (moreValues rest).2 = t ∧
      v :: (moreValues rest).1 = values.map Value.ofText := by
  induction h with
  | @last value s e hs he =>
    obtain ⟨hvalue, rfl⟩ := hs
    subst he
    refine ⟨Value.ofText s, t, ?_, ?_, ?_⟩
    · rw [List.append_nil, value?_append hvalue (ht.stop (by decide))]
    · rw [moreValues_of_none ht.nextValue?]
    · rw [moreValues_of_none ht.nextValue?]
      rfl
  | @more value s g values row hs hg hrow ih =>
    obtain ⟨hvalue, rfl⟩ := hs
    obtain ⟨v, rest, hnext, hrest, hvalues⟩ := ih
    have hmore : moreValues (g ++ (row ++ t)) = (v :: (moreValues rest).1, (moreValues rest).2) :=
      moreValues_of_some ((nextValue?_around hg (IsValues.stop hrow t)).trans hnext)
    refine ⟨Value.ofText s, g ++ (row ++ t), ?_, ?_, ?_⟩
    · rw [List.append_assoc, List.append_assoc,
        value?_append hvalue (hg.head (by decide) (by decide))]
    · rw [hmore, hrest]
    · rw [hmore, hvalues]
      rfl

/-- A row of values that is closed reads as the values of its texts. -/
theorem IsValues.values {texts : List (List Char)} (h : IsValues texts row) (ht : Closes t) :
    values (row ++ t) = .ok (texts.map Value.ofText, t) := by
  obtain ⟨v, rest, hvalue, hrest, hvalues⟩ := h.exists_value? ht
  rw [Document.values, hvalue, ← hvalues, ← hrest]

/-! ## Pairs and titles -/

/-- A key, its colon and a closed row of values read as the pair. -/
theorem pair_append {key colon : List Char} {texts : List (List Char)} (hkey : IsIdentifier key)
    (hcolon : Around ':' colon) (hrow : IsValues texts row) (ht : Closes t) :
    pair (key ++ colon ++ row ++ t) = .ok ((key, texts.map Value.ofText), t) := by
  have hvalues := hrow.values ht
  have hidentifier : identifier? (key ++ (colon ++ (row ++ t))) = some (key, colon ++ (row ++ t)) :=
    identifier?_append hkey (hcolon.head (by decide) (by decide))
  obtain ⟨a, b, ha, hb, rfl⟩ := hcolon
  have hmark : ∀ c ∈ (':' :: (b ++ (row ++ t))).head?, isSpace c = false := by
    rintro _ ⟨⟩
    decide
  have hspaces : (a ++ ':' :: b ++ (row ++ t)).dropWhile isSpace = ':' :: (b ++ (row ++ t)) := by
    rw [List.append_assoc, List.cons_append, dropWhile_isSpace_append ha hmark]
  rw [pair, List.append_assoc, List.append_assoc, hidentifier]
  simp only [hspaces, if_true, dropWhile_isSpace_append hb (hrow.stop t), hvalues]
  rfl

/-- A title is not read as a pair: no colon stands behind it. -/
theorem exists_pair_error {name : List Char} (hname : IsIdentifier name) (ht : Closes t) :
    ∃ fault, pair (name ++ t) = .error fault := by
  have hcolon := ht.ne_mark ':' (by decide) (by decide)
  rw [pair, identifier?_append hname (ht.stop (by decide))]
  cases hd : t.dropWhile isSpace with
  | nil => exact ⟨⟨[], .mark⟩, by simp only [hd]⟩
  | cons c rest =>
    exact ⟨⟨c :: rest, .mark⟩, by simp only [hd, if_neg (hcolon c (by rw [hd]; rfl))]⟩

/-! ## Items -/

/-- The rest of a text holds these items, or nothing if there are none. -/
def IsRest (items : List Item) (s : List Char) : Prop :=
  (items = [] ∧ s = []) ∨ IsPlain items s

/-- Items begin with a letter or an underscore. -/
theorem IsPlain.exists_start {items : List Item} (h : IsPlain items s) :
    ∃ c rest, s = c :: rest ∧ isIdentifierStart c = true :=
  Series.exists_start (fun hs => hs.isSolid.start) h

/-- No identifier begins with white space. -/
theorem not_isGap_of_isIdentifierStart {c : Char} (h : isIdentifierStart c = true) :
    isGap c = false := by
  rw [← Bool.not_eq_true]
  intro hgap
  rw [not_of_isGap (p := isIdentifierStart) (by decide) hgap] at h
  exact Bool.false_ne_true h

/-- There is no white space in front of the rest of the items. -/
theorem IsRest.dropWhile_isGap {items : List Item} (h : IsRest items s) :
    s.dropWhile isGap = s := by
  rcases h with ⟨-, rfl⟩ | h
  · rfl
  · obtain ⟨c, rest, rfl, hc⟩ := h.exists_start
    exact List.dropWhile_cons_of_neg (Bool.eq_false_iff.1 (not_isGap_of_isIdentifierStart hc))

/-- A text of items begins with the first one, and white space stands between it and the others. -/
theorem IsPlain.exists_append {item : Item} {items : List Item} (h : IsPlain (item :: items) s) :
    ∃ u t, s = u ++ t ∧ item.IsWritten u ∧ Closes t ∧ IsRest items (t.dropWhile isGap) := by
  cases h with
  | @last _ u e hu he =>
    have hdrop : e.dropWhile isGap = [] := List.dropWhile_eq_nil_iff.2 he
    refine ⟨u, e, rfl, hu, ⟨fun c hc => he c (List.mem_of_mem_head? hc), ?_⟩, .inl ⟨rfl, hdrop⟩⟩
    rw [hdrop]
    exact nofun
  | @more _ u g _ t hu hg ht =>
    obtain ⟨hne, hspacing⟩ := hg
    have hrest : IsRest items t := .inr ht
    have hdrop : (g ++ t).dropWhile isGap = t := by
      rw [List.dropWhile_append_of_pos hspacing, hrest.dropWhile_isGap]
    refine ⟨u, g ++ t, List.append_assoc .., hu, ⟨?_, ?_⟩, hdrop.symm ▸ hrest⟩
    · cases g with
      | nil => exact absurd rfl hne
      | cons c g =>
        rintro _ ⟨⟩
        exact hspacing c (.head _)
    · obtain ⟨c, rest, rfl, hc⟩ := IsPlain.exists_start ht
      rw [hdrop]
      rintro _ ⟨⟩
      exact hc

/-! ## Sections -/

/-- Where no pair follows, reading stops. -/
theorem morePairs_of_error {fault : Fault} (h : pair s = .error fault) : morePairs s = ([], s) := by
  rw [morePairs]
  split <;> simp_all

/-- Where a pair follows, reading goes on behind it and the gap. -/
theorem morePairs_of_ok {p : Pair} (h : pair s = .ok (p, t)) :
    morePairs s = (p :: (morePairs (t.dropWhile isGap)).1, (morePairs (t.dropWhile isGap)).2) := by
  rw [morePairs]
  split <;> simp_all

/-- A pair with its values read from their texts. -/
def readPair (p : List Char × List (List Char)) : Pair :=
  (p.1, p.2.map Value.ofText)

/-- The items of the pairs of a section. -/
def pairItems (pairs : List (List Char × List (List Char))) : List Item :=
  pairs.map fun p => .pair p.1 p.2

/-- The first item, if there is one, is a title. -/
def BeginsSection (items : List Item) : Prop :=
  ∀ item ∈ items.head?, ∃ name, item = .title name

/-- A pair in front of items reads as its key and values, and the other items are left. -/
theorem IsPlain.exists_pair {key : List Char} {texts : List (List Char)} {items : List Item}
    (h : IsPlain (.pair key texts :: items) s) :
    ∃ t, pair s = .ok (readPair (key, texts), t) ∧ IsRest items (t.dropWhile isGap) := by
  obtain ⟨u, t, rfl, hu, ht, hrest⟩ := h.exists_append
  obtain ⟨colon, row, hkey, hcolon, hrow, rfl⟩ := hu
  exact ⟨t, pair_append hkey hcolon hrow ht, hrest⟩

/-- No pair is read where a section begins or the text ends. -/
theorem IsRest.exists_pair_error {items : List Item} (h : IsRest items s)
    (hitems : BeginsSection items) :
    ∃ fault, pair s = .error fault := by
  rcases h with ⟨-, rfl⟩ | h
  · exact ⟨_, rfl⟩
  · cases items with
    | nil => cases h
    | cons item items =>
      obtain ⟨name, rfl⟩ := hitems item rfl
      obtain ⟨u, t, rfl, ⟨hname, rfl⟩, ht, -⟩ := h.exists_append
      exact Document.exists_pair_error hname ht

/-- The pairs of a section are read up to the next title. -/
theorem exists_morePairs {pairs : List (List Char × List (List Char))} {items : List Item}
    (hitems : BeginsSection items) (h : IsRest (pairItems pairs ++ items) s) :
    ∃ t, morePairs s = (pairs.map readPair, t) ∧ IsRest items t := by
  induction pairs generalizing s with
  | nil =>
    obtain ⟨fault, hfault⟩ := h.exists_pair_error hitems
    exact ⟨s, morePairs_of_error hfault, h⟩
  | cons p pairs ih =>
    rcases h with ⟨hnil, -⟩ | h
    · cases hnil
    · obtain ⟨t, hpair, hrest⟩ := IsPlain.exists_pair h
      obtain ⟨u, hmore, hu⟩ := ih hrest
      exact ⟨u, by rw [morePairs_of_ok hpair, hmore, List.map_cons], hu⟩

/-- A section with its title, the values read from their texts. -/
def readSection (entry : List Char × List (List Char × List (List Char))) : List Char × Section :=
  (entry.1, Section.ofPairs (entry.2.map readPair))

/-- A title with its pairs reads as the section, and the items behind are left. -/
theorem exists_titledSection {entry : List Char × List (List Char × List (List Char))}
    {items : List Item} (hpairs : entry.2 ≠ []) (hitems : BeginsSection items)
    (h : IsPlain (.title entry.1 :: (pairItems entry.2 ++ items)) s) :
    ∃ t, titledSection s = .ok (readSection entry, t) ∧ IsRest items t := by
  obtain ⟨title, pairs⟩ := entry
  obtain ⟨u, t, rfl, ⟨hname, rfl⟩, ht, hrest⟩ := h.exists_append
  cases pairs with
  | nil => exact absurd rfl hpairs
  | cons p pairs =>
    rcases hrest with ⟨hnil, -⟩ | hplain
    · cases hnil
    · obtain ⟨v, hpair, hv⟩ := IsPlain.exists_pair hplain
      obtain ⟨w, hmore, hw⟩ := exists_morePairs hitems hv
      refine ⟨w, ?_, hw⟩
      rw [titledSection, identifier?_append hname (ht.stop (by decide))]
      simp only [hpair, hmore, bind, Except.bind, pure, Except.pure, readSection, List.map_cons]

/-! ## Documents -/

/-- Where no section follows, reading stops. -/
theorem moreSections_of_error {fault : Fault} (h : titledSection s = .error fault) :
    moreSections s = ([], s) := by
  rw [moreSections]
  split <;> simp_all

/-- Where a section follows, reading goes on behind it and the gap. -/
theorem moreSections_of_ok {first : List Char × Section} (h : titledSection s = .ok (first, t)) :
    moreSections s = (first :: (moreSections (t.dropWhile isGap)).1,
      (moreSections (t.dropWhile isGap)).2) := by
  rw [moreSections]
  split <;> simp_all

/-- The items of a document begin with a title. -/
theorem beginsSection_items (outline : Outline) : BeginsSection outline.items := by
  cases outline with
  | nil => exact nofun
  | cons entry outline =>
    rintro _ ⟨⟩
    exact ⟨_, rfl⟩

/-- The sections that remain are read to the end of the text. -/
theorem moreSections_eq {outline : Outline} (hpairs : ∀ entry ∈ outline, entry.2 ≠ [])
    (h : IsRest outline.items s) : moreSections s = (outline.map readSection, []) := by
  induction outline generalizing s with
  | nil =>
    rcases h with ⟨-, rfl⟩ | h
    · exact moreSections_of_error rfl
    · cases h
  | cons entry outline ih =>
    rw [List.forall_mem_cons] at hpairs
    rcases h with ⟨hnil, -⟩ | h
    · cases hnil
    · obtain ⟨t, hsection, ht⟩ := exists_titledSection hpairs.1 (beginsSection_items outline) h
      rw [moreSections_of_ok hsection, ht.dropWhile_isGap, ih hpairs.2 ht, List.map_cons]

/-- The document that is written. -/
def Outline.document (outline : Outline) : Document :=
  Table.ofEntries (outline.map readSection)

/-- Items without comments read as the document, with white space before and behind. -/
theorem sections_append {outline : Outline} {lead body : List Char}
    (hpairs : ∀ entry ∈ outline, entry.2 ≠ []) (hlead : IsSpacing lead)
    (h : IsPlain outline.items body) :
    sections (lead ++ body) = .ok (outline.document, []) := by
  cases outline with
  | nil => cases h
  | cons entry outline =>
    rw [List.forall_mem_cons] at hpairs
    obtain ⟨t, hsection, ht⟩ := exists_titledSection hpairs.1 (beginsSection_items outline) h
    have hbody : (lead ++ body).dropWhile isGap = body := by
      rw [List.dropWhile_append_of_pos hlead, IsRest.dropWhile_isGap (.inr h)]
    rw [sections, hbody, hsection]
    simp only [bind, Except.bind, pure, Except.pure, ht.dropWhile_isGap,
      moreSections_eq hpairs.2 ht]
    rfl

/-- Every way to write a document reads as the document. -/
theorem IsLayout.read {outline : Outline} {text : List Char} (h : IsLayout outline text) :
    read text = .ok outline.document := by
  obtain ⟨lead, body, hlead, hbody, htext⟩ := h.withoutComments
  rw [Document.read, htext, sections_append h.pairs hlead hbody]
  rfl

/-! ## What is found in the document -/

/-- A document has the titles under which it was written. -/
theorem Outline.has_document (outline : Outline) (title : List Char) :
    Table.has outline.document title = true ↔ title ∈ outline.map (·.1) := by
  have hnames : (outline.map readSection).map (·.1) = outline.map (·.1) := List.map_map
  rw [Outline.document, Table.has_ofEntries, hnames]

/-- A section has under a key the values of the last pair with the key. -/
theorem get?_ofPairs (pairs : List (List Char × List (List Char))) (key : List Char) :
    Table.get? (Section.ofPairs (pairs.map readPair)) key =
      (Table.last? pairs key).map fun texts => some (texts.map Value.ofText) := by
  rw [Section.ofPairs, Table.get?_ofEntries, List.map_map]
  exact Table.last?_map (fun texts => some (texts.map Value.ofText)) pairs key

/-- Under a title the last section with it is found. -/
theorem Outline.get?_document (outline : Outline) (title : List Char) :
    Table.get? outline.document title =
      (Table.last? outline title).map fun pairs => Section.ofPairs (pairs.map readPair) := by
  rw [Outline.document, Table.get?_ofEntries]
  exact Table.last?_map (fun pairs => Section.ofPairs (pairs.map readPair)) outline title

/-- Under a key of the section under a title the values of the last pair with the key are found. -/
theorem Outline.lookup?_document (outline : Outline) (title key : List Char) :
    outline.document.lookup? title key =
      ((Table.last? outline title).bind (Table.last? · key)).map fun texts =>
      some (texts.map Value.ofText) := by
  rw [lookup?, outline.get?_document]
  cases Table.last? outline title with
  | none => rfl
  | some pairs => exact get?_ofPairs pairs key

/-- Every layout of a document is read as the document: each title has its last section, and each
key of this section the values of its last pair. With a template, the titles and keys of the
template that the document lacks are added without values, and nothing else changes. -/
theorem exists_read_of_isLayout {outline : Outline} {text : List Char} (h : IsLayout outline text) :
    ∃ d, read text = .ok d ∧ (∀ title, Table.has d title = true ↔ title ∈ outline.map (·.1)) ∧
      (∀ title key, d.lookup? title key =
        ((Table.last? outline title).bind (Table.last? · key)).map fun texts =>
        some (texts.map Value.ofText)) ∧
      ∀ template, ∃ d', readAs template text = .ok d' ∧
        (∀ title, Table.has d' title = true ↔ Table.has d title = true ∨
          title ∈ template.map (·.1)) ∧
        ∀ title key, d'.lookup? title key =
          (d.lookup? title key).or (if template.Asks title key then some none else none) := by
  refine ⟨outline.document, h.read, outline.has_document, outline.lookup?_document,
    fun template => ?_⟩
  refine ⟨fill outline.document template, ?_, has_fill _ template, lookup?_fill _ template⟩
  rw [readAs, h.read]
  rfl

/-- A title that comes twice, a key that comes twice in the second of its sections, comments behind
both kinds of ends of lines, and a value that looks like a pair. -/
theorem exists_read_of_isLayout_settings :
    let text :=
      "% engines\nengine\r\nmode :\t1.5 ,off\r\n\r\n# mode: on\nengine mode:x\tmode:a:b\n ;end".toList
    let engine := "engine".toList
    let mode := "mode".toList
    let level := "level".toList
    let outline := [(engine, [(mode, ["1.5".toList, "off".toList])]),
      (engine, [(mode, ["x".toList]), (mode, ["a:b".toList])])]
    IsLayout outline text ∧
      ∃ d, read text = .ok d ∧ d.lookup? engine mode = some (some [Value.text "a:b".toList]) ∧
        ∃ d', readAs [(engine, [mode, level])] text = .ok d' ∧
          d'.lookup? engine level = some none := by
  intro text engine mode level outline
  have hengines : IsIdleLine "% engines".toList :=
    ⟨by decide, [], _, rfl, nofun, .inr ⟨['%'], by decide, by decide⟩⟩
  have hmode : IsIdleLine "# mode: on".toList :=
    ⟨by decide, [], _, rfl, nofun, .inr ⟨['#'], by decide, by decide⟩⟩
  have hend : IsIdleLine " ;end".toList :=
    ⟨by decide, [' '], ";end".toList, rfl, List.all_eq_true.1 rfl,
      .inr ⟨[';'], by decide, by decide⟩⟩
  have hlead : IsLead "% engines\n".toList := .line hengines (.blank rfl .nil)
  have hlines : IsGap "\r\n\r\n# mode: on\n".toList :=
    ⟨by decide, .blank rfl (.blank rfl (.blank rfl (.line hmode (.blank rfl .nil))))⟩
  have htrail : IsTrail "\n ;end".toList := .line hend (.blank rfl .nil)
  have htitle : (Item.title engine).IsWritten engine :=
    ⟨isIdentifier_cons.2 ⟨rfl, List.all_eq_true.1 rfl⟩, rfl⟩
  have hkey : IsIdentifier mode := isIdentifier_cons.2 ⟨rfl, List.all_eq_true.1 rfl⟩
  have hvalue {value : List Char} (hne : value ≠ []) (hchars : value.all isValueChar = true) :
      IsValues [value] (value ++ []) :=
      .last ⟨isValueText_iff.2 ⟨hne, List.all_eq_true.1 hchars⟩, rfl⟩ rfl
  have hcomma : Around ',' " ,".toList :=
    ⟨[' '], [], isSpaces_iff.2 (List.all_eq_true.1 rfl), nofun, rfl⟩
  have hrow : IsValues ["1.5".toList, "off".toList] "1.5 ,off".toList :=
    .more (s := "1.5".toList) ⟨isValueText_iff.2 ⟨by decide, List.all_eq_true.1 rfl⟩, rfl⟩ hcomma
      (hvalue (by decide) rfl)
  have hcolon : Around ':' " :\t".toList :=
    ⟨[' '], ['\t'], isSpaces_iff.2 (List.all_eq_true.1 rfl),
      isSpaces_iff.2 (List.all_eq_true.1 rfl), rfl⟩
  have hfirst : (Item.pair mode ["1.5".toList, "off".toList]).IsWritten "mode :\t1.5 ,off".toList :=
    ⟨_, _, hkey, hcolon, hrow, rfl⟩
  have hsecond {value : List Char} (hne : value ≠ []) (hchars : value.all isValueChar = true) :
      (Item.pair mode [value]).IsWritten (mode ++ [':'] ++ (value ++ [])) :=
    ⟨_, _, hkey, ⟨[], [], nofun, nofun, rfl⟩, hvalue hne hchars, rfl⟩
  have hbody : Series Item.IsWritten IsGap IsTrail (Outline.items outline) _ :=
    .more (g := ['\r', '\n']) htitle ⟨nofun, .blank rfl (.blank rfl .nil)⟩ <| .more hfirst hlines <|
      .more (g := [' ']) htitle ⟨nofun, .blank rfl .nil⟩ <|
        .more (g := ['\t']) (hsecond (by decide) rfl) ⟨nofun, .blank rfl .nil⟩ <|
          .last (hsecond (by decide) rfl) htrail
  have hlayout : IsLayout outline text := ⟨by decide, _, _, hlead, hbody, by decide⟩
  obtain ⟨d, hread, -, hlookup, htemplate⟩ := exists_read_of_isLayout hlayout
  obtain ⟨d', hreadAs, -, hlookup'⟩ := htemplate [(engine, [mode, level])]
  refine ⟨hlayout, d, hread, ?_, d', hreadAs, ?_⟩
  · rw [hlookup]
    rfl
  · rw [hlookup', hlookup]
    rfl

end Formula.Document
