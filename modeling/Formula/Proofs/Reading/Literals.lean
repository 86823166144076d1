import Formula.Proofs.Literal.Shape
import Formula.Proofs.Reading.Descent

/-!
# The literals that the reader meets

Before the reader takes a text apart it looks whether the text is a literal. If it is, its number is
asked for, and a literal that wrote none would be reported as an unknown symbol. `Examines` are the
texts that are looked at in this way when a formula is read, and `TakesApart` those that are then
taken apart. All of them are in ASCII, since neither the parts of a text nor the signs that are
restored bring in other characters (`TakesApart.isBody`), and in ASCII a text is a literal just when
it writes a number. Every error of the reader comes from one of these texts or from the brackets of
one (`reports_read`), so that report is never made (`parseWith_literals`).
-/

namespace Formula.Reading

open Formula.Bracket

/-! ## The texts of a reading -/

/-- The texts that are taken apart when a formula is read, if no part before them fails. -/
inductive TakesApart (restore : Bool) (s : List Char) : List Char → Prop
  /-- The whole formula, which alone has omitted signs to restore. -/
  | whole {t u} : foreignChar? s = none → enter (Text.trim s) (squeezed s) = .ok t →
    Literal.isLiteral t.val = false →
      restored? restore t.val = some u → TakesApart restore s u
  | part {u p t} : TakesApart restore s u → p ∈ (dissect u).parts → enter p p = .ok t →
      Literal.isLiteral t.val = false → TakesApart restore s t.val

/-- The texts about which the reader asks whether they are literals. -/
inductive Examines (restore : Bool) (s : List Char) : List Char → Prop
  | whole {t} : foreignChar? s = none → enter (Text.trim s) (squeezed s) = .ok t →
    Examines restore s t.val
  | part {u p t} : TakesApart restore s u → p ∈ (dissect u).parts → enter p p = .ok t →
    Examines restore s t.val

/-- The errors of the places where a reading can fail. -/
inductive Reports (restore : Bool) (s : List Char) : ParseError → Prop
  | foreign {c} : foreignChar? s = some c → Reports restore s (.unknownSymbol [c])
  | whole {e} : foreignChar? s = none → enter (Text.trim s) (squeezed s) = .error e →
    Reports restore s e
  | unordered {t} : foreignChar? s = none → enter (Text.trim s) (squeezed s) = .ok t →
      Literal.isLiteral t.val = false → restored? restore t.val = none →
      Reports restore s (.outOfOrder t.val)
  | part {u p e} : TakesApart restore s u → p ∈ (dissect u).parts → enter p p = .error e →
    Reports restore s e
  /-- An operand is missing, or a single character is unknown. -/
  | fault {u e} : TakesApart restore s u → e ∈ (dissect u).fault? → Reports restore s e
  /-- A literal writes no number. -/
  | number {t} : Examines restore s t → Literal.isLiteral t = true → Decimal.read? t = none →
      Reports restore s (.unknownSymbol t)

variable {restore : Bool} {s t u p shown : List Char}

/-! ## Entering -/

/-- Nothing is unknown before a text has been entered. -/
theorem enter_ne_unknownSymbol (shown s : List Char) :
    enter shown s ≠ .error (.unknownSymbol u) := by
  unfold enter
  split
  · simp
  · split <;> simp

/-- What has been entered and is no literal can be taken apart. -/
theorem isBody_of_enter {t : { t : List Char // t.length ≤ s.length }} (h : enter shown s = .ok t)
    (hliteral : Literal.isLiteral t.val = false) : IsBody t.val := by
  obtain ⟨hs, hne, ht⟩ := enter_eq_ok h
  rw [ht] at hliteral ⊢
  exact ⟨balanced_strip hs, hne, enclosed?_strip s, hliteral⟩

/-- What is entered of a text of ASCII is ASCII. -/
theorem ascii_of_enter {t : { t : List Char // t.length ≤ s.length }} (h : enter shown s = .ok t)
    (hascii : ∀ c ∈ s, c.toNat < 128) : ∀ c ∈ t.val, c.toNat < 128 := by
  obtain ⟨hs, -, ht⟩ := enter_eq_ok h
  rw [ht]
  exact fun c hc => hascii c (mem_of_mem_strip hs hc)

/-! ## In ASCII -/

/-- A body is taken apart without loss. -/
theorem IsBody.isExact (h : IsBody u) : (dissect u).IsExact u :=
  isExact_dissect h.balanced h.ne_nil h.bare

/-- No character is new in the parts of a text. -/
theorem IsBody.ascii_part (h : IsBody u) (hascii : ∀ c ∈ u, c.toNat < 128)
    (hp : p ∈ (dissect u).parts) :
    ∀ c ∈ p, c.toNat < 128 :=
  fun c hc => hascii c ((h.isExact.isInfix p hp).subset hc)

/-- Without blanks a text of ASCII is still one. -/
theorem ascii_squeezed (h : foreignChar? s = none) : ∀ c ∈ squeezed s, c.toNat < 128 :=
  fun c hc => foreignChar?_eq_none.1 h c (List.mem_filter.1 hc).1

/-- Signs that are restored are in ASCII. -/
theorem ascii_restored (hascii : ∀ c ∈ t, c.toNat < 128) (hu : restored? restore t = some u) :
    ∀ c ∈ u, c.toNat < 128 := by
  intro c hc
  rcases (starred_of_restored? hu).mem_or hc with rfl | hc
  · decide
  · exact hascii c hc

/-- Every text that is taken apart is in ASCII, and no literal. -/
theorem TakesApart.isBody (h : TakesApart restore s u) : IsBody u ∧ ∀ c ∈ u, c.toNat < 128 := by
  induction h with
  | whole hforeign henter hliteral hu =>
    have hascii := ascii_of_enter henter (ascii_squeezed hforeign)
    exact ⟨(isBody_of_enter henter hliteral).restored hu, ascii_restored hascii hu⟩
  | part _ hp henter hliteral ih =>
    exact ⟨isBody_of_enter henter hliteral, ascii_of_enter henter (ih.1.ascii_part ih.2 hp)⟩

/-- The reader asks about texts of ASCII only. -/
theorem Examines.ascii (h : Examines restore s t) : ∀ c ∈ t, c.toNat < 128 := by
  cases h with
  | whole hforeign henter => exact ascii_of_enter henter (ascii_squeezed hforeign)
  | part hu hp henter => exact ascii_of_enter henter (hu.isBody.1.ascii_part hu.isBody.2 hp)

/-! ## Errors -/

/-- A text that can be taken apart has an unknown symbol only if it is a single character. -/
theorem IsBody.eq_singleton_of_fault (h : IsBody s)
    (hfault : .unknownSymbol u ∈ (dissect s).fault?) :
    s = u ∧ ∃ c, u = [c] := by
  have hexact := h.isExact
  cases hd : dissect s with
  | operation | negated | affirmed | product | letter =>
    rw [hd] at hfault
    cases hfault
  | refused =>
    rw [hd] at hfault hexact
    obtain rfl := Option.some.inj hfault
    obtain ⟨c, rfl, he⟩ := hexact
    obtain rfl := ParseError.unknownSymbol.inj he
    exact ⟨rfl, c, rfl⟩
  | call f base before tail =>
    rw [hd] at hfault hexact
    cases tail with
    | ok => cases hfault
    | error =>
      obtain rfl := Option.some.inj hfault
      cases hexact.2

/-- What is reported as unknown is a single character, and no literal in ASCII. -/
theorem Reports.exists_char (h : Reports restore s (.unknownSymbol u)) :
    ∃ c, u = [c] ∧ (c.toNat < 128 → Literal.isLiteral [c] = false) := by
  generalize he : ParseError.unknownSymbol u = e at h
  cases h with
  | foreign hforeign =>
    obtain rfl := ParseError.unknownSymbol.inj he
    have hc := List.find?_some hforeign
    refine ⟨_, rfl, fun hascii => ?_⟩
    simp only [decide_eq_true_eq] at hc
    omega
  | whole _ henter =>
    subst he
    exact absurd henter (enter_ne_unknownSymbol _ _)
  | unordered => cases he
  | part _ _ henter =>
    subst he
    exact absurd henter (enter_ne_unknownSymbol _ _)
  | fault hu hfault =>
    subst he
    obtain ⟨hbody, -⟩ := hu.isBody
    obtain ⟨rfl, c, rfl⟩ := hbody.eq_singleton_of_fault hfault
    exact ⟨c, rfl, fun _ => hbody.not_isLiteral⟩
  | number ht hliteral hnone =>
    obtain ⟨d, hd⟩ := Decimal.exists_read?_of_isLiteral ht.ascii hliteral
    rw [hnone] at hd
    cases hd

variable {α : Type} [Numeral α]

/-- A literal that is examined fails only as a reading can fail there. -/
theorem reports_readNumber (ht : Examines restore s t) (hliteral : Literal.isLiteral t = true) :
    FailsOnly (Reports restore s) (readNumber t : Except ParseError (Expr α)) := by
  unfold readNumber
  split
  · exact failsOnly_ok _
  next hnone => exact failsOnly_error (.number ht hliteral hnone)

/-- The errors of a text are those of its places, among which are the places of its parts. -/
theorem reports_readBody (hu : TakesApart restore s u) :
    FailsOnly (Reports restore s) (readBody u : Except ParseError (Expr α)) := by
  induction hn : u.length using Nat.strongRecOn generalizing u with
  | ind n ih =>
    refine failsOnly_readBody (fun e he => .fault hu he) fun p hp => ?_
    rw [readPart]
    split
    next e henter => exact failsOnly_error (.part hu hp henter)
    next t ht henter =>
      split
      next hliteral => exact reports_readNumber (.part hu hp henter) hliteral
      next hliteral =>
        have hshorter := length_lt_of_mem_parts hp
        exact ih t.length (by omega) (.part hu hp henter (by simpa using hliteral)) rfl

/-- Every error of a reading comes from one of its places. -/
theorem reports_read (restore : Bool) (s : List Char) :
    FailsOnly (Reports restore s) (Expr.read restore s : Except ParseError (Expr α)) := by
  unfold Expr.read
  split
  next c hforeign => exact failsOnly_error (.foreign hforeign)
  next hforeign =>
    split
    next e henter => exact failsOnly_error (.whole hforeign henter)
    next t ht henter =>
      split
      next hliteral => exact reports_readNumber (.whole hforeign henter) hliteral
      next hliteral =>
        have hliteral : Literal.isLiteral t = false := by simpa using hliteral
        cases restore with
        | false => exact reports_readBody (.whole hforeign henter hliteral rfl)
        | true =>
          rw [if_neg (by simp)]
          split
          next u hu => exact reports_readBody (.whole hforeign henter hliteral hu)
          next hnone => exact failsOnly_error (.unordered hforeign henter hliteral hnone)

/-- A text writes a number if and only if the grammar says so, and in ASCII these are the literals.
So for every literal that is met in reading a formula there is a number, a text that is taken apart
is no literal, and an unknown symbol that is reported is a single character, never a literal in
ASCII. -/
theorem parseWith_literals :
    (∀ s : List Char, (∃ d, Decimal.read? s = some d) ↔ Literal.IsNumber s) ∧
    (∀ s : List Char, (∀ c ∈ s, c.toNat < 128) →
      (Literal.isLiteral s = true ↔ ∃ d, Decimal.read? s = some d)) ∧
    ∀ (restore : Bool) (text : String),
      (∀ t, Examines restore text.toList t → Literal.isLiteral t = true →
        ∃ d, Decimal.read? t = some d ∧ readNumber t = .ok (.num (Numeral.ofDecimal d) : Expr α)) ∧
      (∀ u, TakesApart restore text.toList u → Literal.isLiteral u = false) ∧
      ∀ u, (Expr.parseWith restore text : Except ParseError (Expr α)) = .error (.unknownSymbol u) →
        ∃ c, u = [c] ∧ (c.toNat < 128 → Literal.isLiteral [c] = false) := by
  refine ⟨fun s => Decimal.exists_read?_iff_isNumber, fun s hascii => ?_, fun restore text =>
    ⟨?_, ?_, ?_⟩⟩
  · rw [Decimal.exists_read?_iff_isNumber]
    exact Literal.isLiteral_iff_isNumber hascii
  · intro t ht hliteral
    obtain ⟨d, hd⟩ := Decimal.exists_read?_of_isLiteral ht.ascii hliteral
    exact ⟨d, hd, by rw [readNumber, hd]⟩
  · exact fun u hu => hu.isBody.1.not_isLiteral
  · intro u hu
    exact (reports_read restore text.toList _ hu).exists_char

/-- A word behind a sign is a number. The mark of an exponent without its digits and a point by
itself are none. -/
theorem parseWith_literals_word_and_point :
    (∃ d, Decimal.read? "-1.e+05".toList = some d) ∧ (¬ ∃ d, Decimal.read? "1.e+".toList = some d) ∧
      (Examines true "2(x)-iNf".toList "iNf".toList ∧ ∃ d, Decimal.read? "iNf".toList = some d ∧
        readNumber "iNf".toList = .ok (.num (Numeral.ofDecimal d) : Expr Float)) ∧
      (TakesApart true "2(x)-iNf".toList "2*(x)-iNf".toList ∧
        Literal.isLiteral "2*(x)-iNf".toList = false) ∧
      (Expr.parseWith true "." : Except ParseError (Expr Float)) = .error (.unknownSymbol ['.']) ∧
        Literal.isLiteral ['.'] = false := by
  obtain ⟨-, hnumbers, hreading⟩ := parseWith_literals (α := Float)
  have hnumber : ∃ d, Decimal.read? "-1.e+05".toList = some d :=
    (hnumbers _ (foreignChar?_eq_none.1 rfl)).1 rfl
  have hopen : ¬ ∃ d, Decimal.read? "1.e+".toList = some d := fun h =>
    absurd ((hnumbers _ (foreignChar?_eq_none.1 rfl)).2 h) (by decide)
  have hapart : TakesApart true "2(x)-iNf".toList "2*(x)-iNf".toList :=
    .whole rfl (enter_eq_of_bare rfl (by decide) rfl) rfl rfl
  have hexamined : Examines true "2(x)-iNf".toList "iNf".toList := by
    have hpart : "iNf".toList ∈ (dissect "2*(x)-iNf".toList).parts := by decide
    exact .part hapart hpart (enter_eq_of_bare rfl (by simp) rfl)
  have hunknown : (Expr.parseWith true "." : Except ParseError (Expr Float)) =
    .error (.unknownSymbol ['.']) := by
    have hpart : (readPart ['.'] : Except ParseError (Expr Float)) = readBody ['.'] :=
      readPart_eq_readBody rfl (by simp) rfl rfl
    exact (read_eq rfl rfl).trans (hpart.trans (readBody_refused rfl))
  obtain ⟨hliterals, hbodies, -⟩ := hreading true "2(x)-iNf"
  obtain ⟨c, hc, hpoint⟩ := (hreading true ".").2.2 _ hunknown
  obtain rfl : '.' = c := by simpa using hc
  exact ⟨hnumber, hopen, ⟨hexamined, hliterals _ hexamined rfl⟩, ⟨hapart, hbodies _ hapart⟩,
    hunknown, hpoint (by decide)⟩

end Formula.Reading
