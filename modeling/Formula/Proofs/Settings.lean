import Formula.Literal
import Formula.Proofs.Document.Reading
import Formula.Settings

/-!
# Settings are read back

Settings that are written into a document in one of its many layouts are read from it again
(`Settings.ofDocument_of_isLayout`). A value in a document has no type of its own, so a letter or
the name of a level must not read as a number: it neither begins like one nor is a word for one
(`Document.Value.ofText_eq_text`). For levels this is seen in small letters, since their names may
be written in any: what begins like a number begins like one in small letters, too, and no word for
a number is a level in small letters (`Level.ofText_eq_text`).
-/

namespace Formula

/-! ## Texts that are no numbers -/

namespace Decimal

variable {s : List Char}

/-- Does the text begin like a number that is written in digits? -/
def beginsNumber : List Char → Bool
  | [] => false
  | c :: _ => c.isDigit || c == '+' || c == '-' || c == '.'

/-- What does not begin like a number has no sign. -/
theorem splitSign_eq_self (h : beginsNumber s = false) : splitSign s = (false, s) := by
  unfold splitSign
  split
  · cases h
  · cases h
  · rfl

/-- What does not begin like a number is no integer. -/
theorem readInt?_eq_none (h : beginsNumber s = false) : readInt? s = none := by
  rw [readInt?, splitSign_eq_self h]
  cases s with
  | nil => rfl
  | cons c s =>
    simp only [beginsNumber, Bool.or_eq_false_iff] at h
    simp [readNat?, h.1.1.1]

/-- What does not begin like a number is no number in digits. -/
theorem readDigits?_eq_none (h : beginsNumber s = false) (negative : Bool) :
    readDigits? negative s = none := by
  cases s with
  | nil => rfl
  | cons c s =>
    simp only [beginsNumber, Bool.or_eq_false_iff, beq_eq_false_iff_ne] at h
    have hfraction : splitFraction (c :: s) = ([], c :: s) := by
      unfold splitFraction
      split
      next heq => exact absurd (List.cons.inj heq).1 h.2
      · rfl
    simp [readDigits?, h.1.1.1, hfraction]

/-- What begins unlike a number in digits and is no word for a number writes no number. -/
theorem read?_eq_none (h : beginsNumber s = false) (hword : Literal.isWord s = false) :
    read? s = none := by
  have hwords : ∀ w ∈ Literal.words, s.map Char.toLower ≠ w := by
    rintro w hw rfl
    simp [Literal.isWord, hw] at hword
  have hnone : readWord? false s = none := by
    simp [readWord?, hwords ['i', 'n', 'f'] (by decide),
      hwords ['i', 'n', 'f', 'i', 'n', 'i', 't', 'y'] (by decide),
      hwords ['n', 'a', 'n'] (by decide)]
  rw [read?, splitSign_eq_self h]
  simp only [hnone, readDigits?_eq_none h, Option.none_or]

end Decimal

namespace Document.Value

/-- A text that is neither number nor truth value stays a text. -/
theorem ofText_eq_text {s : List Char} (hblank : ∀ c ∈ s, Text.isBlank c = false)
    (hnumber : Decimal.beginsNumber s = false) (hword : Literal.isWord s = false)
    (hboolean : s ∉ ["true".toList, "false".toList]) : ofText s = text s := by
  simp only [List.mem_cons, List.not_mem_nil, or_false, not_or] at hboolean
  simp only [ofText, Text.trim_eq_self hblank, Decimal.readInt?_eq_none hnumber, Option.filter_none,
    Decimal.read?_eq_none hnumber hword, if_neg hboolean.1, if_neg hboolean.2]

/-- The text of a truth value gives the truth value. -/
theorem ofText_boolean (b : Bool) : ofText (boolean b).toText = boolean b := by
  cases b <;> rfl

/-- A letter stays a text. -/
theorem ofText_letter {c : Char} (hc : c.isAlpha = true) : ofText [c] = text [c] := by
  have hclass : Text.isBlank c = false ∧ Decimal.beginsNumber [c] = false :=
    forall_ascii (P := fun c => c.isAlpha = true → Text.isBlank c = false ∧
      Decimal.beginsNumber [c] = false) (by decide +kernel) (toNat_lt_of_isAlpha hc) hc
  refine ofText_eq_text (List.forall_mem_singleton.2 hclass.1) hclass.2 ?_ ?_
  · simp [Literal.isWord, Literal.words]
  · simp

end Document.Value

/-! ## Names of levels -/

/-- Characters of ASCII become small letters one by one. -/
theorem Text.lowerFrom_cons {c : Char} (hc : c.toNat < 128) (before s : List Char) :
    lowerFrom before (c :: s) = c.toLower :: lowerFrom (c :: before) s := by
  have hlower : c ≠ 'Σ' ∧ lowerChar c = [c.toLower] :=
    forall_ascii (P := fun c => c ≠ 'Σ' ∧ lowerChar c = [c.toLower]) (by decide +kernel) hc
  simp only [lowerFrom, if_neg hlower.1, hlower.2, List.singleton_append]

/-- In ASCII a text is made small character by character. -/
theorem Text.lower_eq_map {s : List Char} (hs : ∀ c ∈ s, c.toNat < 128) :
    lower s = s.map Char.toLower := by
  have hfrom : ∀ before, lowerFrom before s = s.map Char.toLower := by
    induction s with
    | nil => exact fun _ => rfl
    | cons c s ih =>
      rw [List.forall_mem_cons] at hs
      intro before
      rw [lowerFrom_cons hs.1, ih hs.2, List.map_cons]
  exact hfrom []

/-- The small form of what begins like a number in digits begins so too. -/
theorem Decimal.beginsNumber_lower {s : List Char} (h : beginsNumber s = true) :
    beginsNumber (Text.lower s) = true := by
  cases s with
  | nil => cases h
  | cons c s =>
    have hascii : c.toNat < 128 := by
      simp only [beginsNumber, Bool.or_eq_true, beq_iff_eq] at h
      rcases h with ((h | rfl) | rfl) | rfl
      · exact toNat_lt_of_isDigit h
      · decide
      · decide
      · decide
    rw [Text.lower, Text.lowerFrom_cons hascii]
    exact forall_ascii (P := fun c => beginsNumber (c :: s) = true →
      ∀ t, beginsNumber (c.toLower :: t) = true)
      (by simp only [beginsNumber, forall_const]; decide +kernel) hascii h _

/-- The small form of a word for a number is that word in small letters. -/
theorem Literal.lower_mem_words {s : List Char} (h : isWord s = true) : Text.lower s ∈ words := by
  have hwords : s.map Char.toLower ∈ words := by simpa [isWord] using h
  have hascii : ∀ c ∈ s, c.toNat < 128 := by
    intro c hc
    have hsmall : ∀ w ∈ words, (w.all fun d => decide (d.toNat < 128)) = true := by decide
    have hlower :=
      of_decide_eq_true (List.all_eq_true.1 (hsmall _ hwords) _ (List.mem_map_of_mem hc))
    unfold Char.toLower at hlower
    split at hlower
    next hcapital => exact Nat.lt_of_le_of_lt (UInt32.le_iff_toNat_le.1 hcapital.2) (by decide)
    · exact hlower
  rwa [Text.lower_eq_map hascii]

namespace Level

/-- The name of a level is read as a text, if there is no white space in it. -/
theorem ofText_eq_text {name : List Char} (hblank : ∀ c ∈ name, Text.isBlank c = false)
    (hlevel : (ofName? name).isSome = true) : Document.Value.ofText name = .text name := by
  obtain ⟨level, -, hname⟩ := List.find?_isSome.1 hlevel
  have hlower : level.name = Text.lower name := by
    rw [eq_of_beq hname, canonical, Text.trim_eq_self hblank]
  -- Each of the three would show in the small form, which is one of six words.
  refine Document.Value.ofText_eq_text hblank ?_ ?_ ?_
  · by_contra h
    have hbegins := Decimal.beginsNumber_lower (Bool.not_eq_false _ ▸ h)
    rw [← hlower] at hbegins
    cases level <;> cases hbegins
  · by_contra h
    have hword := Literal.lower_mem_words (Bool.not_eq_false _ ▸ h)
    rw [← hlower] at hword
    revert hword
    cases level <;> decide
  · intro h
    have hboolean : ∀ s ∈ ["true".toList, "false".toList], ∀ l : Level, l ∈ all →
      l.name ≠ Text.lower s := by
      decide +kernel
    exact hboolean name h level (by cases level <;> decide) hlower

end Level

/-! ## Written settings -/

namespace Settings

open Document

/-- What is set. -/
inductive Field
  | restoreTimes | wrt | simplifyResults | level

/-- The key under which a field stands. -/
def Field.key : Field → List Char
  | restoreTimes => "rectify".toList
  | wrt => "variable".toList
  | simplifyResults => "simplify_results".toList
  | level => "loglevel".toList

/-- The text of a field, if it has one. -/
def text? (c : Settings) : Field → Option (List Char)
  | .restoreTimes => some (Value.boolean c.restoreTimes).toText
  | .wrt => some [c.wrt]
  | .simplifyResults => some (Value.boolean c.simplifyResults).toText
  | .level => c.level

/-- The pairs of a section give the settings: under the key of a field its text stands alone, and a
field is left out only if it has its standard value. Other keys may stand anywhere among them. -/
structure IsGivenBy (c : Settings) (pairs : List (List Char × List (List Char))) : Prop where
  agrees : ∀ (field : Field) texts, (field.key, texts) ∈ pairs →
    ∃ text ∈ c.text? field, texts = [text]
  complete : ∀ field : Field, c.text? field ≠ ({} : Settings).text? field →
    ∃ texts, (field.key, texts) ∈ pairs

/-- The settings are such as a document can give: the variable is a letter and not the constant, and
the level, if it is named, is known under its name, which has no white space in it. -/
structure IsWritable (c : Settings) : Prop where
  wrt : c.wrt.isAlpha = true ∧ c.wrt ≠ 'e'
  level : ∀ name ∈ c.level, (∀ d ∈ name, Text.isBlank d = false) ∧
    (Level.ofName? name).isSome = true

variable {c : Settings} {pairs : List (List Char × List (List Char))}

/-- What is given for a field, or the standard text if nothing is, is the text of the field. -/
theorem IsGivenBy.exists_single? (h : c.IsGivenBy pairs) (field : Field) :
    ∃ given : Option (List Char), single? (Section.ofPairs (pairs.map readPair)) field.key =
      .ok (given.map Value.ofText) ∧ given.or (({} : Settings).text? field) = c.text? field := by
  cases hlast : Table.last? pairs field.key with
  | none =>
    have hfound : Table.get? (Section.ofPairs (pairs.map readPair)) field.key = none := by
      rw [get?_ofPairs, hlast, Option.map_none]
    refine ⟨none, by simp [single?, hfound], ?_⟩
    by_contra hne
    obtain ⟨texts, hmem⟩ := h.complete field (Ne.symm hne)
    exact Table.not_mem_of_last?_eq_none hlast texts hmem
  | some texts =>
    obtain ⟨text, htext, rfl⟩ := h.agrees field texts (Table.mem_of_last? hlast)
    have hfound : Table.get? (Section.ofPairs (pairs.map readPair)) field.key =
      some (some [Value.ofText text]) := by
      rw [get?_ofPairs, hlast, Option.map_some, List.map_singleton]
    exact ⟨some text, by simp [single?, hfound], htext.symm⟩

/-- A truth value that is given is read back, and one that is not given is the standard one. -/
theorem exists_boolean? {s : Section} {key : List Char} {given : Option (List Char)} {b : Bool}
    (hsingle : single? s key = .ok (given.map Value.ofText))
    (hgiven : given.or (some (Value.boolean true).toText) = some (Value.boolean b).toText) :
    ∃ o, boolean? s key = .ok o ∧ o.getD true = b := by
  cases given with
  | none =>
    refine ⟨none, by rw [boolean?, hsingle]; rfl, ?_⟩
    cases b with
    | true => rfl
    | false => cases hgiven
  | some text =>
    obtain rfl := Option.some.inj hgiven
    refine ⟨some b, ?_, rfl⟩
    rw [boolean?, hsingle, Option.map_some, Value.ofText_boolean]
    rfl

/-- A given variable reads as a text, since it is a letter, and is found; without one it is the
standard one. -/
theorem exists_variableOf {given : Option (List Char)} {v : Char} (hv : v.isAlpha = true ∧ v ≠ 'e')
    (hgiven : given.or (some ['x']) = some [v]) :
    ∃ o, (given.map Value.ofText).mapM variableOf = .ok o ∧ o.getD 'x' = v := by
  cases given with
  | none =>
    refine ⟨none, rfl, ?_⟩
    exact (List.cons.inj (Option.some.inj hgiven)).1
  | some text =>
    obtain rfl := Option.some.inj hgiven
    have hvariable : variableOf (Value.text [v]) = .ok v := by
      simp [variableOf, Value.toText, hv.1, hv.2]
    refine ⟨some v, ?_, rfl⟩
    rw [Option.map_some, Value.ofText_letter hv.1]
    simp [hvariable]

/-- A level with a known name is found, and so is the standard one. -/
theorem exists_select {name? : Option (List Char)}
    (h : ∀ name ∈ name?, (Level.ofName? name).isSome = true) :
    ∃ level, Level.select name? = .ok level := by
  cases name? with
  | none => exact ⟨_, rfl⟩
  | some name =>
    obtain ⟨level, hlevel⟩ := Option.isSome_iff_exists.1 (h name rfl)
    exact ⟨level, by rw [Level.select, hlevel]⟩

/-- The section that gives the settings is read as them. -/
theorem IsGivenBy.ofSection (h : c.IsGivenBy pairs) (hc : c.IsWritable) :
    ofSection (Section.ofPairs (pairs.map readPair)) = .ok c := by
  obtain ⟨restore, hrestore, hrestoreTimes⟩ :
      ∃ o, boolean? (Section.ofPairs (pairs.map readPair)) "rectify".toList = .ok o ∧
        o.getD true = c.restoreTimes := by
    obtain ⟨given, hsingle, hgiven⟩ := h.exists_single? .restoreTimes
    exact exists_boolean? hsingle hgiven
  obtain ⟨simplify, hsimplify, hsimplifyResults⟩ :
      ∃ o, boolean? (Section.ofPairs (pairs.map readPair)) "simplify_results".toList = .ok o ∧
        o.getD true = c.simplifyResults := by
    obtain ⟨given, hsingle, hgiven⟩ := h.exists_single? .simplifyResults
    exact exists_boolean? hsingle hgiven
  obtain ⟨letter?, hvariable, letter, hletter, hwrt⟩ :
      ∃ v, single? (Section.ofPairs (pairs.map readPair)) "variable".toList = .ok v ∧
        ∃ o, v.mapM variableOf = .ok o ∧ o.getD 'x' = c.wrt := by
    obtain ⟨given, hsingle, hgiven⟩ := h.exists_single? .wrt
    exact ⟨_, hsingle, exists_variableOf hc.wrt hgiven⟩
  obtain ⟨level?, hlevel, htext⟩ :
      ∃ v, single? (Section.ofPairs (pairs.map readPair)) "loglevel".toList = .ok v ∧
        v.map Value.toText = c.level := by
    obtain ⟨given, hsingle, hgiven⟩ := h.exists_single? .level
    obtain rfl : given = c.level := Option.or_none.symm.trans hgiven
    refine ⟨_, hsingle, ?_⟩
    cases hname : c.level with
    | none => rfl
    | some name =>
      obtain ⟨hblank, hknown⟩ := hc.level name hname
      rw [Option.map_some, Option.map_some, Level.ofText_eq_text hblank hknown]
      rfl
  obtain ⟨level, hselect⟩ := exists_select fun name hname => (hc.level name hname).2
  simp only [Settings.ofSection, hrestore, hsimplify, hvariable, hletter, hlevel, htext, hselect,
    hrestoreTimes, hsimplifyResults, hwrt, bind, Except.bind, pure, Except.pure]

/-- Settings that can be written are read back from every layout of a document with a section that
gives them, if no other section with this title comes after it. -/
theorem ofDocument_of_isLayout {before after : Outline} {text : List Char} (hc : c.IsWritable)
    (hpairs : c.IsGivenBy pairs) (hafter : ∀ entry ∈ after, entry.1 ≠ title)
    (hlayout : IsLayout (before ++ (title, pairs) :: after) text) : ofDocument text = .ok c := by
  have hlast : Table.last? (before ++ (title, pairs) :: after) title = some pairs := by
    have hnone : Table.last? after title = none := by
      cases hfound : Table.last? after title with
      | none => rfl
      | some found => exact absurd rfl (hafter _ (Table.mem_of_last? hfound))
    rw [Table.last?] at hnone
    rw [Table.last?, List.reverse_append, List.reverse_cons, List.append_assoc, List.lookup_append,
      hnone, Option.none_or, List.singleton_append, lookup_cons, if_pos rfl]
  rw [ofDocument, hlayout.read]
  simp only [Outline.get?_document, hlast, Option.map_some]
  exact hpairs.ofSection hc

/-- A level in capital letters, a field with its standard value left out, a key that is not known, a
comment between the pairs and a section behind them. -/
theorem ofDocument_of_isLayout_capital_level :
    let text :=
      "engine\nloglevel: DEBUG\nsteps: 3, 4\n# as before\nvariable: t\nsimplify_results: false\nsolver\nmode: on\n"
    let c : Settings := { wrt := 't', simplifyResults := false, level := some "DEBUG".toList }
    let pairs := [("loglevel".toList, ["DEBUG".toList]), ("steps".toList, ["3".toList, "4".toList]),
      ("variable".toList, ["t".toList]), ("simplify_results".toList, ["false".toList])]
    let solver := ("solver".toList, [("mode".toList, ["on".toList])])
    IsLayout [(title, pairs), solver] text.toList ∧ ofDocument text.toList = .ok c := by
  intro text c pairs solver
  have hc : c.IsWritable := by
    refine ⟨by decide, ?_⟩
    rintro _ ⟨⟩
    exact ⟨fun d hd => Bool.eq_false_iff.2 (List.any_eq_false.1 rfl d hd), by decide +kernel⟩
  have hpairs : c.IsGivenBy pairs := by
    constructor
    · intro field texts h
      simp only [pairs, List.mem_cons, List.not_mem_nil, or_false, Prod.mk.injEq] at h
      rcases h with ⟨hkey, rfl⟩ | ⟨hkey, rfl⟩ | ⟨hkey, rfl⟩ | ⟨hkey, rfl⟩ <;> cases field <;>
        first
        | exact ⟨_, rfl, rfl⟩
        | exact absurd hkey (by decide)
    · intro field h
      cases field with
      | restoreTimes => exact absurd rfl h
      | wrt => exact ⟨["t".toList], by decide⟩
      | simplifyResults => exact ⟨["false".toList], by decide⟩
      | level => exact ⟨["DEBUG".toList], by decide⟩
  have hcomment : IsIdleLine "# as before".toList :=
    ⟨by decide, [], _, rfl, nofun, .inr ⟨['#'], by decide, by decide⟩⟩
  have hline : IsGap ['\n'] := ⟨nofun, .blank rfl .nil⟩
  have hname {c : Char} {s : List Char} (hc : isIdentifierStart c = true)
    (hs : s.all isIdentifierChar = true) :
      IsIdentifier (c :: s) := isIdentifier_cons.2 ⟨hc, List.all_eq_true.1 hs⟩
  have hcolon : Around ':' ": ".toList :=
    ⟨[], [' '], nofun, isSpaces_iff.2 (List.all_eq_true.1 rfl), rfl⟩
  have hcomma : Around ',' ", ".toList :=
    ⟨[], [' '], nofun, isSpaces_iff.2 (List.all_eq_true.1 rfl), rfl⟩
  have hvalue {value : List Char} (h : value ≠ [] ∧ value.all isValueChar = true) :
      IsValueText value :=
    isValueText_iff.2 ⟨h.1, List.all_eq_true.1 h.2⟩
  have hpair {key value : List Char} (hkey : IsIdentifier key)
      (h : value ≠ [] ∧ value.all isValueChar = true) :
      (Item.pair key [value]).IsWritten (key ++ ": ".toList ++ (value ++ [])) :=
    ⟨_, _, hkey, hcolon, .last ⟨hvalue h, rfl⟩ rfl, rfl⟩
  have hsteps : (Item.pair "steps".toList ["3".toList, "4".toList]).IsWritten
      ("steps".toList ++ ": ".toList ++ ("3".toList ++ ", ".toList ++ ("4".toList ++ []))) :=
    ⟨_, _, hname rfl rfl, hcolon,
      .more ⟨hvalue (by decide), rfl⟩ hcomma (.last ⟨hvalue (by decide), rfl⟩ rfl), rfl⟩
  have hbody : Series Item.IsWritten IsGap IsTrail (Outline.items [(title, pairs), solver]) _ :=
    .more (s := title) ⟨hname rfl rfl, rfl⟩ hline <|
      .more (hpair (hname rfl rfl) (by decide)) hline <|
      .more (g := "\n# as before\n".toList) hsteps ⟨by decide, .line hcomment (.blank rfl .nil)⟩ <|
        .more (hpair (hname rfl rfl) (by decide)) hline <|
        .more (hpair (hname rfl rfl) (by decide)) hline <|
          .more (s := "solver".toList) ⟨hname rfl rfl, rfl⟩ hline <|
            .last (e := ['\n']) (hpair (hname rfl rfl) (by decide)) (.blank rfl (.blank rfl .nil))
  have hlayout : IsLayout ([] ++ (title, pairs) :: [solver]) text.toList :=
    ⟨by decide, [], _, .blank rfl .nil, hbody, by decide⟩
  exact ⟨hlayout, ofDocument_of_isLayout hc hpairs (by decide) hlayout⟩

end Settings

end Formula
