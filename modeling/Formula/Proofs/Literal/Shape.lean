import Mathlib.Data.List.Induction
import Formula.Proofs.Literal

/-!
# The shape of literals

A number is written with at most one sign before a word or before figures: digits with at most one
point, and behind them perhaps the mark of an exponent with a sign or without. `IsNumber` is this
grammar. The automaton of `Formula.Literal`, which goes through the characters one by one, and the
reader of numbers, which cuts the text at the point and at the mark, both take its texts and no
others (`isLiteral_iff_isNumber`, `exists_read?_iff_isNumber`). The automaton is asked about ASCII
only, since it knows the digits of other scripts too. `Phase.Seen` says what a run has seen when it
reaches a phase.
-/

namespace Formula.Decimal

/-- A sign is split off, or there is none. -/
theorem splitSign_cases (s : List Char) : splitSign s = (false, s) ∨
    ∃ sign t, (sign = '+' ∨ sign = '-') ∧ s = sign :: t ∧ (splitSign s).2 = t := by
  unfold splitSign
  split
  next t => exact .inr ⟨'-', t, .inr rfl, rfl, rfl⟩
  next t => exact .inr ⟨'+', t, .inl rfl, rfl, rfl⟩
  · exact .inl rfl

/-- Taking a sign off brings no character in. -/
theorem splitSign_subset (s : List Char) : (splitSign s).2 ⊆ s := by
  rcases splitSign_cases s with hsplit | ⟨sign, t, -, rfl, hsplit⟩
  · rw [hsplit]
    exact List.Subset.refl s
  · rw [hsplit]
    exact List.subset_cons_self sign t

end Formula.Decimal

namespace Formula.Literal

/-- Digits by themselves, or with a point before, among or behind them. -/
inductive IsMantissa : List Char → Prop
  | whole {ws} : ws ≠ [] → (∀ c ∈ ws, c.isDigit = true) → IsMantissa ws
  | fraction {ws fs} : ws ++ fs ≠ [] → (∀ c ∈ ws, c.isDigit = true) → (∀ c ∈ fs, c.isDigit = true) →
      IsMantissa (ws ++ '.' :: fs)

/-- Is the character the mark of an exponent? -/
def IsMark (c : Char) : Prop :=
  c = 'e' ∨ c = 'E'

/-- Digits behind at most one sign. -/
inductive IsExponent : List Char → Prop
  | unsigned {ds} : ds ≠ [] → (∀ c ∈ ds, c.isDigit = true) → IsExponent ds
  | signed {sign ds} : sign = '+' ∨ sign = '-' → ds ≠ [] → (∀ c ∈ ds, c.isDigit = true) →
    IsExponent (sign :: ds)

/-- A mantissa, with an exponent or without. -/
inductive IsFigures : List Char → Prop
  | plain {m} : IsMantissa m → IsFigures m
  | scientific {m mark ds} : IsMantissa m → IsMark mark → IsExponent ds →
    IsFigures (m ++ mark :: ds)

/-- A number without a sign. The letters of words may be small or capital. -/
inductive IsUnsigned : List Char → Prop
  | figures {s} : IsFigures s → IsUnsigned s
  | word {s} : s.map Char.toLower ∈ ["inf".toList, "infinity".toList, "nan".toList] → IsUnsigned s

/-- The grammar of written numbers. -/
inductive IsNumber : List Char → Prop
  | unsigned {s} : IsUnsigned s → IsNumber s
  | signed {sign s} : sign = '+' ∨ sign = '-' → IsUnsigned s → IsNumber (sign :: s)

/-- What a run in ASCII has seen when it is in the phase. -/
def Phase.Seen (s : List Char) : Phase → Prop
  | .start => s = []
  | .whole => s ≠ [] ∧ ∀ c ∈ s, c.isDigit = true
  | .barePoint => s = ['.']
  | .fraction => ∃ ws fs, s = ws ++ '.' :: fs ∧ ws ++ fs ≠ [] ∧ (∀ c ∈ ws, c.isDigit = true) ∧
      ∀ c ∈ fs, c.isDigit = true
  | .mark => ∃ m mark, s = m ++ [mark] ∧ IsMantissa m ∧ IsMark mark
  | .markSign =>
    ∃ m mark sign, s = m ++ [mark, sign] ∧ IsMantissa m ∧ IsMark mark ∧ (sign = '+' ∨ sign = '-')
  | .exponent => ∃ m mark ds, s = m ++ mark :: ds ∧ IsMantissa m ∧ IsMark mark ∧ IsExponent ds

variable {s m ds : List Char} {c mark : Char} {p q : Phase}

/-! ## Characters -/

/-- The mark of an exponent is no digit. -/
theorem not_isDigit_of_isMark (h : IsMark c) : c.isDigit = false := by
  rcases h with rfl | rfl <;> rfl

/-- A mantissa has a character. -/
theorem IsMantissa.ne_nil (h : IsMantissa m) : m ≠ [] := by
  cases h with
  | whole hne => exact hne
  | fraction => simp

/-- A mantissa holds digits and points only. -/
theorem IsMantissa.isDigit_or_point (h : IsMantissa m) : ∀ c ∈ m, c.isDigit = true ∨ c = '.' := by
  cases h with
  | whole _ hws => exact fun c hc => .inl (hws c hc)
  | fraction _ hws hfs =>
    exact List.forall_mem_append.2 ⟨fun c hc => .inl (hws c hc),
      List.forall_mem_cons.2 ⟨.inr rfl, fun c hc => .inl (hfs c hc)⟩⟩

/-- Figures begin with a digit or with the point. -/
theorem IsFigures.exists_cons (h : IsFigures s) :
    ∃ c t, s = c :: t ∧ (c.isDigit = true ∨ c = '.') := by
  cases h with
  | plain hm =>
    obtain ⟨c, t, rfl⟩ := List.exists_cons_of_ne_nil hm.ne_nil
    exact ⟨c, t, rfl, hm.isDigit_or_point c List.mem_cons_self⟩
  | scientific hm =>
    obtain ⟨c, t, rfl⟩ := List.exists_cons_of_ne_nil hm.ne_nil
    exact ⟨c, _, rfl, hm.isDigit_or_point c List.mem_cons_self⟩

/-- An exponent ends in a digit. -/
theorem IsExponent.exists_last (h : IsExponent ds) : ∃ t d, ds = t ++ [d] ∧ d.isDigit = true := by
  have hdigits : ∀ {ds : List Char}, ds ≠ [] → (∀ c ∈ ds, c.isDigit = true) →
      ∃ t d, ds = t ++ [d] ∧ d.isDigit = true := by
    intro ds hne hds
    obtain ⟨t, d, rfl⟩ := (List.eq_nil_or_concat ds).resolve_left hne
    exact ⟨t, d, by simp, hds d (by simp)⟩
  cases h with
  | unsigned hne hds => exact hdigits hne hds
  | @signed sign _ _ hne hds =>
    obtain ⟨t, d, rfl, hd⟩ := hdigits hne hds
    exact ⟨sign :: t, d, rfl, hd⟩

/-! ## Runs -/

/-- Phases of digits have seen a mantissa. -/
theorem Phase.Seen.isMantissa (h : p.Seen s) (hp : p = .whole ∨ p = .fraction) : IsMantissa s := by
  rcases hp with rfl | rfl
  · exact .whole h.1 h.2
  · obtain ⟨ws, fs, rfl, hne, hws, hfs⟩ := h
    exact .fraction hne hws hfs

/-- What has been seen grows by the character that a phase goes on with. -/
theorem Phase.Seen.next (h : p.Seen s) (hc : c.toNat < 128) (hnext : p.next c = some q) :
    q.Seen (s ++ [c]) := by
  have hgrows : ∀ {ds : List Char}, (∀ d ∈ ds, d.isDigit = true) → Text.isDecimalDigit c = true →
      ∀ d ∈ ds ++ [c], d.isDigit = true := by
    intro ds hds hdigit
    rw [isDecimalDigit_eq_isDigit hc] at hdigit
    exact List.forall_mem_append.2 ⟨hds, List.forall_mem_singleton.2 hdigit⟩
  have hfirst := hgrows (List.forall_mem_nil _)
  cases Phase.goes_of_next hnext with
  | startDigit hdigit =>
    obtain rfl : s = [] := h
    exact ⟨by simp, hfirst hdigit⟩
  | startPoint =>
    obtain rfl : s = [] := h
    rfl
  | wholeDigit hdigit => exact ⟨by simp, hgrows h.2 hdigit⟩
  | wholePoint => exact ⟨s, [], rfl, by simpa using h.1, h.2, List.forall_mem_nil _⟩
  | wholeMark hmark => exact ⟨s, c, rfl, h.isMantissa (.inl rfl), hmark⟩
  | barePointDigit hdigit =>
    obtain rfl : s = ['.'] := h
    exact ⟨[], [c], rfl, by simp, List.forall_mem_nil _, hfirst hdigit⟩
  | fractionDigit hdigit =>
    obtain ⟨ws, fs, rfl, hne, hws, hfs⟩ := h
    exact ⟨ws, fs ++ [c], by simp, by simp, hws, hgrows hfs hdigit⟩
  | fractionMark hmark => exact ⟨s, c, rfl, h.isMantissa (.inr rfl), hmark⟩
  | markDigit hdigit =>
    obtain ⟨m, mark, rfl, hm, hmark⟩ := h
    exact ⟨m, mark, [c], by simp, hm, hmark, .unsigned (by simp) (hfirst hdigit)⟩
  | markSign hsign =>
    obtain ⟨m, mark, rfl, hm, hmark⟩ := h
    exact ⟨m, mark, c, by simp, hm, hmark, hsign⟩
  | markSignDigit hdigit =>
    obtain ⟨m, mark, sign, rfl, hm, hmark, hsign⟩ := h
    exact ⟨m, mark, [sign, c], by simp, hm, hmark, .signed hsign (by simp) (hfirst hdigit)⟩
  | exponentDigit hdigit =>
    obtain ⟨m, mark, ds, rfl, hm, hmark, hds⟩ := h
    refine ⟨m, mark, ds ++ [c], by simp, hm, hmark, ?_⟩
    cases hds with
    | unsigned _ hds => exact .unsigned (by simp) (hgrows hds hdigit)
    | signed hsign _ hds => exact .signed hsign (by simp) (hgrows hds hdigit)

/-- A run has seen what its phase says. -/
theorem seen_of_run (hascii : ∀ c ∈ s, c.toNat < 128) (h : s.foldlM Phase.next .start = some p) :
    p.Seen s := by
  induction s using List.reverseRecOn generalizing p with
  | nil =>
    obtain rfl : Phase.start = p := by simpa using h
    rfl
  | append_singleton s c ih =>
    simp only [List.foldlM_append, List.foldlM_cons, List.foldlM_nil, bind_pure,
      Option.bind_eq_bind, Option.bind_eq_some_iff] at h
    obtain ⟨q, hq, hnext⟩ := h
    exact (ih (fun d hd => hascii d (by simp [hd])) hq).next (hascii c (by simp)) hnext

/-- A run over a mantissa ends in a phase of digits. -/
theorem IsMantissa.exists_run (h : IsMantissa m) :
    ∃ p : Phase, (p = .whole ∨ p = .fraction) ∧ m.foldlM Phase.next .start = some p := by
  cases h with
  | whole hne hws => exact ⟨.whole, .inl rfl, run_whole hne hws⟩
  | fraction hne hws hfs => exact ⟨.fraction, .inr rfl, run_fraction hne hws hfs⟩

/-- The mark of an exponent goes on behind a mantissa. -/
theorem next_of_isMark (hp : p = .whole ∨ p = .fraction) (hmark : IsMark mark) :
    p.next mark = some .mark := by
  rcases hp with rfl | rfl <;> rcases hmark with rfl | rfl <;> rfl

/-- A run over digits that begin in the exponent, perhaps behind its sign. -/
theorem run_exponent (hne : ds ≠ []) (hds : ∀ c ∈ ds, c.isDigit = true)
    (hp : p = .mark ∨ p = .markSign) :
    ds.foldlM Phase.next p = some .exponent := by
  obtain ⟨c, ds, rfl⟩ := List.exists_cons_of_ne_nil hne
  have hc := isDecimalDigit_of_isDigit (hds c List.mem_cons_self)
  have hnext : p.next c = some .exponent := by
    rcases hp with rfl | rfl <;> exact if_pos hc
  rw [List.foldlM_cons, hnext]
  exact run_digits (fun d hd => hds d (List.mem_cons_of_mem c hd)) (.inr (.inr rfl))

/-- An exponent takes the automaton from the mark to its last phase. -/
theorem IsExponent.run (h : IsExponent ds) : ds.foldlM Phase.next .mark = some .exponent := by
  cases h with
  | unsigned hne hds => exact run_exponent hne hds (.inl rfl)
  | @signed sign ds hsign hne hds =>
    have hnext : Phase.next .mark sign = some .markSign := by
      rcases hsign with rfl | rfl <;> rfl
    rw [List.foldlM_cons, hnext]
    exact run_exponent hne hds (.inr rfl)

/-- Figures are unsigned literals in digits. -/
theorem IsFigures.isDigits (h : IsFigures s) : isDigits s = true := by
  cases h with
  | plain hm =>
    obtain ⟨p, hp, hrun⟩ := hm.exists_run
    rw [Literal.isDigits, hrun]
    rcases hp with rfl | rfl <;> rfl
  | scientific hm hmark hds =>
    obtain ⟨p, hp, hrun⟩ := hm.exists_run
    simp [Literal.isDigits, hrun, next_of_isMark hp hmark, hds.run, Phase.isFinal]

/-- Unsigned literals in ASCII digits are figures. -/
theorem isFigures_of_isDigits (hascii : ∀ c ∈ s, c.toNat < 128) (h : isDigits s = true) :
    IsFigures s := by
  obtain ⟨p, hrun, hfinal⟩ := (Option.any_eq_true _ _).1 h
  have hseen := seen_of_run hascii hrun
  cases p with
  | whole => exact .plain (hseen.isMantissa (.inl rfl))
  | fraction => exact .plain (hseen.isMantissa (.inr rfl))
  | exponent =>
    obtain ⟨m, mark, ds, rfl, hm, hmark, hds⟩ := hseen
    exact .scientific hm hmark hds
  | start | barePoint | mark | markSign => cases hfinal

/-! ## Literals in ASCII -/

/-- A number without a sign is made of figures or is a word. -/
theorem isUnsigned_iff : IsUnsigned s ↔ IsFigures s ∨ isWord s = true := by
  constructor
  · rintro (hfigures | hword)
    · exact .inl hfigures
    · exact .inr (List.contains_iff_mem.2 hword)
  · rintro (hfigures | hword)
    · exact .figures hfigures
    · exact .word (List.contains_iff_mem.1 hword)

/-- A number without a sign begins with none. -/
theorem IsUnsigned.splitSign_eq (h : IsUnsigned s) : Decimal.splitSign s = (false, s) := by
  cases h with
  | figures hfigures =>
    obtain ⟨c, t, rfl, hc⟩ := hfigures.exists_cons
    exact Decimal.splitSign_of_mantissa hc t
  | word hword =>
    have hsigns : ∀ w ∈ words, '+' ∉ w ∧ '-' ∉ w := by decide
    obtain ⟨hplus, hminus⟩ := hsigns _ hword
    unfold Decimal.splitSign
    split
    · exact absurd (List.mem_map_of_mem List.mem_cons_self) hminus
    · exact absurd (List.mem_map_of_mem List.mem_cons_self) hplus
    · rfl

/-- The sign of a number is what is split off. -/
theorem isNumber_iff : IsNumber s ↔ IsUnsigned (Decimal.splitSign s).2 := by
  constructor
  · rintro (h | ⟨hsign, h⟩)
    · rwa [h.splitSign_eq]
    · rcases hsign with rfl | rfl <;> exact h
  · intro h
    rcases Decimal.splitSign_cases s with hsplit | ⟨sign, t, hsign, rfl, hsplit⟩
    · rw [hsplit] at h
      exact .unsigned h
    · rw [hsplit] at h
      exact .signed hsign h

/-- Every number is a literal. -/
theorem isLiteral_of_isNumber (h : IsNumber s) : isLiteral s = true := by
  rw [isLiteral, Bool.or_eq_true]
  exact (isUnsigned_iff.1 (isNumber_iff.1 h)).imp_left IsFigures.isDigits

/-- In ASCII the literals are the numbers. -/
theorem isLiteral_iff_isNumber (hascii : ∀ c ∈ s, c.toNat < 128) :
    isLiteral s = true ↔ IsNumber s := by
  refine ⟨fun h => ?_, isLiteral_of_isNumber⟩
  have hbody : ∀ c ∈ (Decimal.splitSign s).2, c.toNat < 128 :=
    fun c hc => hascii c (Decimal.splitSign_subset s hc)
  rw [isLiteral, Bool.or_eq_true] at h
  exact isNumber_iff.2 (isUnsigned_iff.2 (h.imp_left (isFigures_of_isDigits hbody)))

/-- An ASCII character of a literal is a letter, a digit, a point or a sign. -/
theorem isAlpha_or_of_isLiteral (h : isLiteral s = true) (hmem : c ∈ s) (hc : c.toNat < 128) :
    c.isAlpha = true ∨ c.isDigit = true ∨ c = '.' ∨ c = '+' ∨ c = '-' := by
  by_contra hother
  simp only [not_or, Bool.not_eq_true] at hother
  obtain ⟨halpha, hdigit, hpoint, hplus, hminus⟩ := hother
  have hlower : ¬ c.isAlpha = true → c.toLower = c :=
    forall_ascii (P := fun c => ¬ c.isAlpha = true → c.toLower = c) (by decide) hc
  have hword : ∀ w ∈ words, ∀ d ∈ w, d.isAlpha = true := by simp [words]
  have hmark : ¬ (c = 'e' ∨ c = 'E') := by
    rintro (rfl | rfl) <;> cases halpha
  refine not_mem_of_isLiteral (c := c) (fun p => ?_) (fun w hw hcw => ?_) ⟨hplus, hminus⟩ h hmem
  · cases p <;> simp [Phase.next, isDecimalDigit_eq_isDigit hc, hdigit, hpoint, hplus, hminus,
      not_or.1 hmark]
  · rw [hlower (by simp [halpha])] at hcw
    rw [hword w hw c hcw] at halpha
    cases halpha

end Literal

namespace Decimal

open Formula.Literal

variable {s m ds rest : List Char} {mark : Char}

/-! ## Numbers that are read -/

/-- Digits and a point come before an exponent. -/
theorem exists_readDigits?_mantissa (hm : IsMantissa m) :
    ∃ n places, ∀ negative rest, (∀ c ∈ rest.head?, c.isDigit = false ∧ c ≠ '.') →
      readDigits? negative (m ++ rest) =
        (readExponent? rest).map fun e => .finite negative n (e - (places : Nat)) := by
  cases hm with
  | whole hne hws =>
    refine ⟨natOfDigits m, 0, fun negative rest hrest => ?_⟩
    rw [readDigits?_whole hne hws hrest]
    simp
  | @fraction ws fs hne hws hfs =>
    refine ⟨natOfDigits (ws ++ fs), fs.length, fun negative rest hrest => ?_⟩
    have hstop : ∀ c ∈ rest.head?, c.isDigit = false := fun c hc => (hrest c hc).1
    rw [List.append_assoc, List.cons_append, readDigits?_fraction hne hws hfs hstop]

/-- A natural number is read from digits only, and every row of digits is one. -/
theorem readNat?_eq_some_iff {n : Nat} :
    readNat? ds = some n ↔ ds ≠ [] ∧ (∀ c ∈ ds, c.isDigit = true) ∧ natOfDigits ds = n := by
  simp [readNat?, List.all_eq_true]

/-- The texts that read as integers are those of exponents. -/
theorem exists_readInt?_iff : (∃ e, readInt? ds = some e) ↔ IsExponent ds := by
  constructor
  · rintro ⟨e, he⟩
    obtain ⟨n, hn⟩ : ∃ n, readNat? (splitSign ds).2 = some n := by
      cases hn : readNat? (splitSign ds).2 with
      | none => simp [readInt?, hn] at he
      | some n => exact ⟨n, rfl⟩
    obtain ⟨hne, hdigits, -⟩ := readNat?_eq_some_iff.1 hn
    rcases splitSign_cases ds with hsplit | ⟨sign, t, hsign, rfl, hsplit⟩
    · rw [hsplit] at hne hdigits
      exact .unsigned hne hdigits
    · rw [hsplit] at hne hdigits
      exact .signed hsign hne hdigits
  · have hread : ∀ {ds : List Char}, ds ≠ [] → (∀ c ∈ ds, c.isDigit = true) →
      readNat? ds = some (natOfDigits ds) :=
      fun hne hds => readNat?_eq_some_iff.2 ⟨hne, hds, rfl⟩
    rintro (⟨hne, hds⟩ | ⟨hsign, hne, hds⟩)
    · obtain ⟨d, ds, rfl⟩ := List.exists_cons_of_ne_nil hne
      have hsplit := splitSign_of_mantissa (.inl (hds d List.mem_cons_self)) ds
      simp [readInt?, hsplit, hread hne hds]
    · rcases hsign with rfl | rfl <;> simp [readInt?, splitSign, hread hne hds]

/-- Behind the digits of a number stands an exponent, or nothing. -/
theorem exists_readExponent?_iff :
    (∃ e, readExponent? s = some e) ↔ s = [] ∨ ∃ mark ds, s = mark :: ds ∧ IsMark mark ∧
      IsExponent ds := by
  cases s with
  | nil => simp [readExponent?]
  | cons mark ds => simp [readExponent?, IsMark, ← exists_readInt?_iff]

/-- Figures are a mantissa with what stands behind it. -/
theorem exists_mantissa_of_readDigits? {negative : Bool} {d : Decimal}
    (h : readDigits? negative s = some d) :
    ∃ m rest, s = m ++ rest ∧ IsMantissa m ∧ ∃ e, readExponent? rest = some e := by
  have hws : ∀ c ∈ s.takeWhile Char.isDigit, c.isDigit = true :=
    fun c hc => List.mem_takeWhile_imp hc
  have hs : s.takeWhile Char.isDigit ++ s.dropWhile Char.isDigit = s :=
    List.takeWhile_append_dropWhile
  simp only [readDigits?, Option.ite_none_left_eq_some, Option.map_eq_some_iff] at h
  generalize s.takeWhile Char.isDigit = ws at h hws hs
  generalize s.dropWhile Char.isDigit = t at h hs
  subst hs
  unfold splitFraction at h
  split at h
  next t =>
    obtain ⟨hne, e, he, -⟩ := h
    have hfs : ∀ c ∈ t.takeWhile Char.isDigit, c.isDigit = true :=
      fun c hc => List.mem_takeWhile_imp hc
    have hboth : ws ++ t.takeWhile Char.isDigit ≠ [] := by
      rw [Ne, List.append_eq_nil_iff]
      simpa using hne
    exact ⟨ws ++ '.' :: t.takeWhile Char.isDigit, t.dropWhile Char.isDigit, by simp,
      .fraction hboth hws hfs, e, he⟩
  · obtain ⟨hne, e, he, -⟩ := h
    exact ⟨ws, t, rfl, .whole (by simpa using hne) hws, e, he⟩

/-- The reader cuts figures at the point and at the mark. -/
theorem exists_readDigits?_iff (negative : Bool) :
    (∃ d, readDigits? negative s = some d) ↔ IsFigures s := by
  constructor
  · rintro ⟨d, hd⟩
    obtain ⟨m, rest, rfl, hm, hrest⟩ := exists_mantissa_of_readDigits? hd
    rcases exists_readExponent?_iff.1 hrest with rfl | ⟨mark, ds, rfl, hmark, hds⟩
    · rw [List.append_nil]
      exact .plain hm
    · exact .scientific hm hmark hds
  · rintro (hm | ⟨hm, hmark, hds⟩)
    · obtain ⟨n, places, hread⟩ := exists_readDigits?_mantissa hm
      have hread := hread negative [] (by simp)
      rw [List.append_nil] at hread
      exact ⟨_, hread⟩
    · obtain ⟨n, places, hread⟩ := exists_readDigits?_mantissa hm
      obtain ⟨e, he⟩ := exists_readExponent?_iff.2 (.inr ⟨_, _, rfl, hmark, hds⟩)
      refine ⟨.finite negative n (e - (places : Nat)), ?_⟩
      rw [hread negative _ ?_, he, Option.map_some]
      intro c hc
      obtain rfl := Option.some.inj hc
      refine ⟨not_isDigit_of_isMark hmark, ?_⟩
      rcases hmark with rfl | rfl <;> decide

/-- The words are the texts that read as numbers that are no fraction. -/
theorem exists_readWord?_iff (negative : Bool) :
    (∃ d, readWord? negative s = some d) ↔ isWord s = true := by
  have hword : isWord s = true ↔ (s.map Char.toLower = ['i', 'n', 'f'] ∨
      s.map Char.toLower = ['i', 'n', 'f', 'i', 'n', 'i', 't', 'y']) ∨
      s.map Char.toLower = ['n', 'a', 'n'] := by
    simp [isWord, words, or_assoc]
  rw [hword]
  simp only [readWord?]
  split
  next hinfinite => exact iff_of_true ⟨_, rfl⟩ (.inl hinfinite)
  next hinfinite =>
    split
    next hnan => exact iff_of_true ⟨_, rfl⟩ (.inr hnan)
    next hnan => exact iff_of_false (by simp) (not_or.2 ⟨hinfinite, hnan⟩)

/-- The texts that write a number are those of the grammar. -/
theorem exists_read?_iff_isNumber : (∃ d, read? s = some d) ↔ IsNumber s := by
  rw [isNumber_iff, isUnsigned_iff, ← exists_readDigits?_iff (splitSign s).1,
    ← exists_readWord?_iff (splitSign s).1]
  cases hword : readWord? (splitSign s).1 (splitSign s).2 with
  | some d => simp [read?, hword]
  | none => simp [read?, hword]

/-- Literals in the digits of other scripts write none. -/
example : isLiteral [Char.ofNat 0x663] = true ∧ read? [Char.ofNat 0x663] = none := by decide

/-- Every literal in ASCII writes a number. -/
theorem exists_read?_of_isLiteral (hascii : ∀ c ∈ s, c.toNat < 128) (h : isLiteral s = true) :
    ∃ d, read? s = some d :=
  exists_read?_iff_isNumber.2 ((isLiteral_iff_isNumber hascii).1 h)

end Decimal

end Formula
