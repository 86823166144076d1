import Formula.Decimal.Shortest
import Formula.Literal
import Formula.Proofs.Bracket.Outside
import Formula.Proofs.Text
import Formula.Reading.Symbol

/-!
# Literals among operators

A literal is not taken apart at the signs that it holds, so the reader looks for literals before it
looks for operators. A text with an operator in it is a literal in two ways only: the operator is
its sign, or it is the sign of an exponent (`eq_nil_or_captured_of_isLiteral`). The second takes the
operator from the formula, as in `2e+3`, where the sum of `2e` and `3` may be meant; `Uncaptured`
says that a text has no such place outside brackets.
-/

namespace Formula

/-- Operators are characters of ASCII. -/
theorem toNat_lt_of_isOperatorChar {c : Char} (h : Symbol.isOperatorChar c = true) :
    c.toNat < 128 := by
  simp only [Symbol.isOperatorChar, Bool.or_eq_true, beq_iff_eq] at h
  rcases h with (((rfl | rfl) | rfl) | rfl) | rfl <;> decide

namespace Reading

open Formula.Bracket

/-- Does the text end in digits, or a point, and the mark of an exponent? -/
def EndsInMark (s : List Char) : Prop :=
  ∃ u d m, s = u ++ [d, m] ∧ (Text.isDecimalDigit d = true ∨ d = '.') ∧ (m = 'e' ∨ m = 'E')

/-- Whether a text ends in a mark is told by its last two characters. -/
theorem endsInMark_append_pair {u : List Char} {d m : Char} :
    EndsInMark (u ++ [d, m]) ↔ (Text.isDecimalDigit d = true ∨ d = '.') ∧ (m = 'e' ∨ m = 'E') := by
  constructor
  · rintro ⟨v, d', m', h, hdigits, hm⟩
    obtain ⟨-, h⟩ := List.append_inj' h rfl
    cases h
    exact ⟨hdigits, hm⟩
  · rintro ⟨hdigits, hm⟩
    exact ⟨u, d, m, rfl, hdigits, hm⟩

/-- A text that ends in a mark has a digit or point before it. -/
theorem EndsInMark.two_le_length {s : List Char} (h : EndsInMark s) : 2 ≤ s.reverse.length := by
  obtain ⟨u, d, m, rfl, -⟩ := h
  simp

instance (s : List Char) : Decidable (EndsInMark s) :=
  match h : s.reverse with
  | m :: d :: u =>
    have hs : s = u.reverse ++ [d, m] := by simpa using congrArg List.reverse h
    decidable_of_iff _ (hs ▸ endsInMark_append_pair).symm
  | [] => isFalse fun hmark => by simpa [h] using hmark.two_le_length
  | [_] => isFalse fun hmark => by simpa [h] using hmark.two_le_length

/-- Could the plus or minus between two texts be the sign of an exponent? -/
def Captured (a : List Char) (c : Char) (b : List Char) : Prop :=
  (c = '+' ∨ c = '-') ∧ EndsInMark a ∧ ∃ d ∈ b.head?, Text.isDecimalDigit d = true

instance (a : List Char) (c : Char) (b : List Char) : Decidable (Captured a c b) :=
  inferInstanceAs (Decidable (_ ∧ _ ∧ _))

/-- Is no sign outside brackets captured by an exponent? -/
def Uncaptured (s : List Char) : Prop :=
  Outside (fun a c b => ¬ Captured a c b) s

/-- What stands before a text that ends in a mark does not change that. -/
theorem EndsInMark.append_left {s : List Char} (h : EndsInMark s) (t : List Char) :
    EndsInMark (t ++ s) := by
  obtain ⟨u, d, m, rfl, hd, hm⟩ := h
  exact ⟨t ++ u, d, m, by simp, hd, hm⟩

/-- The empty text ends in nothing. -/
theorem not_endsInMark_nil : ¬ EndsInMark [] := by
  rintro ⟨u, d, m, h, -⟩
  simp at h

end Reading

namespace Literal

open Formula.Reading

/-! ## Operators in a literal -/

/-- No operator is a digit. -/
theorem isDecimalDigit_of_isOperatorChar {c : Char} (h : Symbol.isOperatorChar c = true) :
    Text.isDecimalDigit c = false := by
  simp only [Symbol.isOperatorChar, Bool.or_eq_true, beq_iff_eq] at h
  rcases h with (((rfl | rfl) | rfl) | rfl) | rfl <;> decide

/-- The steps of the automaton by name. -/
inductive Phase.Goes : Phase → Char → Phase → Prop
  | startDigit {c} : Text.isDecimalDigit c = true → Goes .start c .whole
  | startPoint : Goes .start '.' .barePoint
  | wholeDigit {c} : Text.isDecimalDigit c = true → Goes .whole c .whole
  | wholePoint : Goes .whole '.' .fraction
  | wholeMark {c} : c = 'e' ∨ c = 'E' → Goes .whole c .mark
  | barePointDigit {c} : Text.isDecimalDigit c = true → Goes .barePoint c .fraction
  | fractionDigit {c} : Text.isDecimalDigit c = true → Goes .fraction c .fraction
  | fractionMark {c} : c = 'e' ∨ c = 'E' → Goes .fraction c .mark
  | markDigit {c} : Text.isDecimalDigit c = true → Goes .mark c .exponent
  | markSign {c} : c = '+' ∨ c = '-' → Goes .mark c .markSign
  | markSignDigit {c} : Text.isDecimalDigit c = true → Goes .markSign c .exponent
  | exponentDigit {c} : Text.isDecimalDigit c = true → Goes .exponent c .exponent

/-- Every step of the automaton is one of the named ones. -/
theorem Phase.goes_of_next {p q : Phase} {c : Char} (h : p.next c = some q) : p.Goes c q := by
  cases p with
  | start =>
    simp only [next] at h
    repeat' split at h
    next hdigit =>
      cases h
      exact .startDigit hdigit
    next hpoint =>
      cases h
      exact hpoint ▸ .startPoint
    · cases h
  | whole =>
    simp only [next, Bool.or_eq_true, beq_iff_eq] at h
    repeat' split at h
    next hdigit =>
      cases h
      exact .wholeDigit hdigit
    next hpoint =>
      cases h
      exact hpoint ▸ .wholePoint
    next hmark =>
      cases h
      exact .wholeMark hmark
    · cases h
  | barePoint =>
    obtain ⟨hdigit, hq⟩ := Option.ite_none_right_eq_some.1 h
    cases hq
    exact .barePointDigit hdigit
  | fraction =>
    simp only [next, Bool.or_eq_true, beq_iff_eq] at h
    repeat' split at h
    next hdigit =>
      cases h
      exact .fractionDigit hdigit
    next hmark =>
      cases h
      exact .fractionMark hmark
    · cases h
  | mark =>
    simp only [next] at h
    repeat' split at h
    next hdigit =>
      cases h
      exact .markDigit hdigit
    next hsign =>
      cases h
      exact .markSign hsign
    · cases h
  | markSign =>
    obtain ⟨hdigit, hq⟩ := Option.ite_none_right_eq_some.1 h
    cases hq
    exact .markSignDigit hdigit
  | exponent =>
    obtain ⟨hdigit, hq⟩ := Option.ite_none_right_eq_some.1 h
    cases hq
    exact .exponentDigit hdigit

/-- Behind an operator a literal goes on only when the operator is the sign of an exponent. -/
theorem next_of_isOperatorChar {p q : Phase} {c : Char} (hc : Symbol.isOperatorChar c = true)
    (h : p.next c = some q) : p = .mark ∧ q = .markSign ∧ (c = '+' ∨ c = '-') := by
  have hdigit := isDecimalDigit_of_isOperatorChar hc
  cases Phase.goes_of_next h with
  | markSign hsign => exact ⟨rfl, rfl, hsign⟩
  | startPoint | wholePoint => cases hc
  | wholeMark hmark | fractionMark hmark => rcases hmark with rfl | rfl <;> cases hc
  | startDigit hd | wholeDigit hd | barePointDigit hd | fractionDigit hd | markDigit hd
  | markSignDigit hd
  | exponentDigit hd =>
    rw [hdigit] at hd
    cases hd

/-- The phase of the mark is entered by the mark, from a phase of digits. -/
theorem next_eq_mark {p : Phase} {c : Char} (h : p.next c = some .mark) :
    (p = .whole ∨ p = .fraction) ∧ (c = 'e' ∨ c = 'E') := by
  cases Phase.goes_of_next h with
  | wholeMark hmark => exact ⟨.inl rfl, hmark⟩
  | fractionMark hmark => exact ⟨.inr rfl, hmark⟩

/-- The phases of digits are entered by a digit or by the point. -/
theorem next_eq_digits {p q : Phase} {c : Char} (h : p.next c = some q)
    (hq : q = .whole ∨ q = .fraction) :
    Text.isDecimalDigit c = true ∨ c = '.' := by
  cases Phase.goes_of_next h with
  | startDigit hd | wholeDigit hd | barePointDigit hd | fractionDigit hd => exact .inl hd
  | wholePoint => exact .inr rfl
  | startPoint | wholeMark | fractionMark | markDigit | markSign | markSignDigit | exponentDigit =>
    rcases hq with hq | hq <;> cases hq

/-- A run that has just seen the mark of an exponent has seen digits before it. -/
theorem endsInMark_of_run {s : List Char} (h : s.foldlM Phase.next .start = some .mark) :
    EndsInMark s := by
  rcases List.eq_nil_or_concat s with rfl | ⟨s, m, rfl⟩
  · simp at h
  simp only [List.concat_eq_append, List.foldlM_append, List.foldlM_cons, List.foldlM_nil,
    bind_pure, Option.bind_eq_bind, Option.bind_eq_some_iff] at h
  obtain ⟨p, hp, hm⟩ := h
  obtain ⟨hdigits, hm⟩ := next_eq_mark hm
  rcases List.eq_nil_or_concat s with rfl | ⟨s, d, rfl⟩
  · obtain rfl : Phase.start = p := by simpa using hp
    simp at hdigits
  simp only [List.concat_eq_append, List.foldlM_append, List.foldlM_cons, List.foldlM_nil,
    bind_pure, Option.bind_eq_bind, Option.bind_eq_some_iff] at hp
  obtain ⟨q, -, hd⟩ := hp
  exact ⟨s, d, m, by simp, next_eq_digits hd hdigits, hm⟩

/-- An operator in an unsigned literal in digits is the sign of its exponent. -/
theorem captured_of_isDigits {l r : List Char} {c : Char} (h : isDigits (l ++ c :: r) = true)
    (hc : Symbol.isOperatorChar c = true) : Captured l c r := by
  simp only [isDigits, List.foldlM_append, List.foldlM_cons, Option.bind_eq_bind,
    Option.any_eq_true, Option.bind_eq_some_iff] at h
  obtain ⟨f, ⟨p, hp, q, hq, hf⟩, hfinal⟩ := h
  obtain ⟨rfl, rfl, hsign⟩ := next_of_isOperatorChar hc hq
  refine ⟨hsign, endsInMark_of_run hp, ?_⟩
  cases r with
  | nil =>
    obtain rfl : Phase.markSign = f := by simpa using hf
    simp [Phase.isFinal] at hfinal
  | cons d r =>
    simp only [List.foldlM_cons, Option.bind_eq_bind, Option.bind_eq_some_iff] at hf
    obtain ⟨_, hnext, -⟩ := hf
    cases Phase.goes_of_next hnext with
    | markSignDigit hd => exact ⟨d, rfl, hd⟩

/-- A character that no phase goes on with, that is no sign and that stands in no word is in no
literal. -/
theorem not_mem_of_isLiteral {c : Char} (hnext : ∀ p : Phase, p.next c = none)
    (hword : ∀ w ∈ words, c.toLower ∉ w) (hsign : c ≠ '+' ∧ c ≠ '-') {s : List Char}
    (h : isLiteral s = true) : c ∉ s := by
  intro hc
  have hbody : c ∈ (Decimal.splitSign s).2 := by
    unfold Decimal.splitSign
    split <;> simp_all
  simp only [isLiteral, Bool.or_eq_true] at h
  rcases h with h | h
  · obtain ⟨l, r, hlr⟩ := List.append_of_mem hbody
    simp [isDigits, hlr, List.foldlM_append, hnext] at h
  · simp only [isWord, List.contains_iff_mem] at h
    exact hword _ h (List.mem_map_of_mem hbody)

/-- A literal holds no bracket and no operator other than a sign. -/
theorem not_mem_of_isLiteral_of_foreign {c : Char} (hc : c ∈ ['(', ')', '[', ']', '*', '/', '^'])
    {s : List Char} (h : isLiteral s = true) : c ∉ s := by
  obtain ⟨hdigit, hword, hplus, hminus, hpoint, he, hE⟩ : Text.isDecimalDigit c = false ∧
      (∀ w ∈ words, c.toLower ∉ w) ∧ c ≠ '+' ∧ c ≠ '-' ∧ c ≠ '.' ∧ c ≠ 'e' ∧ c ≠ 'E' := by
    simp only [List.mem_cons, List.not_mem_nil, or_false] at hc
    rcases hc with rfl | rfl | rfl | rfl | rfl | rfl | rfl <;> decide
  refine not_mem_of_isLiteral (fun p => ?_) hword ⟨hplus, hminus⟩ h
  cases p <;> simp [Phase.next, hdigit, hplus, hminus, hpoint, he, hE]

/-- No word holds an operator. -/
theorem not_isWord_of_mem {s : List Char} {c : Char} (hc : c ∈ s)
    (hop : Symbol.isOperatorChar c = true) :
    isWord s = false := by
  rw [Bool.eq_false_iff]
  intro h
  simp only [isWord, List.contains_iff_mem] at h
  have hmem := List.mem_map_of_mem (f := Char.toLower) hc
  have hword : ∀ w ∈ words, c.toLower ∉ w := by
    simp only [Symbol.isOperatorChar, Bool.or_eq_true, beq_iff_eq] at hop
    rcases hop with (((rfl | rfl) | rfl) | rfl) | rfl <;> decide
  exact hword _ h hmem

/-- An operator in a literal is its sign or the sign of its exponent. -/
theorem eq_nil_or_captured_of_isLiteral {l r : List Char} {c : Char}
    (h : isLiteral (l ++ c :: r) = true) (hc : Symbol.isOperatorChar c = true) :
    l = [] ∨ Captured l c r := by
  cases l with
  | nil => exact Or.inl rfl
  | cons x l =>
    right
    have hsplit : (Decimal.splitSign (x :: l ++ c :: r)).2 = l ++ c :: r ∨
        (Decimal.splitSign (x :: l ++ c :: r)).2 = x :: l ++ c :: r := by
      unfold Decimal.splitSign
      split <;> simp_all
    simp only [isLiteral] at h
    rcases hsplit with hs | hs
    · rw [hs, not_isWord_of_mem (c := c) (by simp) hc, Bool.or_false] at h
      obtain ⟨hsign, hmark, hd⟩ := captured_of_isDigits h hc
      exact ⟨hsign, hmark.append_left [x], hd⟩
    · rw [hs, not_isWord_of_mem (c := c) (by simp) hc, Bool.or_false] at h
      exact captured_of_isDigits h hc

/-- A literal behind a sign is an unsigned literal. -/
theorem splitSign_of_isLiteral {c : Char} {s : List Char} (hc : c = '+' ∨ c = '-')
    (h : isLiteral (c :: s) = true) : Decimal.splitSign s = (false, s) ∧ isLiteral s = true := by
  have hbody : isDigits s = true ∨ isWord s = true := by
    rcases hc with rfl | rfl <;> simpa [isLiteral, Decimal.splitSign] using h
  have hs : Decimal.splitSign s = (false, s) := by
    unfold Decimal.splitSign
    split
    · rcases hbody with hb | hb
      · simp [isDigits, Phase.next, show Text.isDecimalDigit '-' = false from rfl] at hb
      · rw [not_isWord_of_mem List.mem_cons_self rfl] at hb
        cases hb
    · rcases hbody with hb | hb
      · simp [isDigits, Phase.next, show Text.isDecimalDigit '+' = false from rfl] at hb
      · rw [not_isWord_of_mem List.mem_cons_self rfl] at hb
        cases hb
    · rfl
  exact ⟨hs, by simpa [isLiteral, hs] using hbody⟩

end Literal

/-! ## The numbers of literals -/

/-- The number with the other sign. What is not a number has none. -/
def Decimal.negated : Decimal → Decimal
  | finite negative digits exponent => finite (!negative) digits exponent
  | infinite negative => infinite (!negative)
  | notANumber => notANumber

/-- Scalars on which a written minus sign is the operation of negation. -/
class Numeral.Signed (α : Type) [Numeral α] : Prop where
  ofDecimal_negated (d : Decimal) (h : d.isNegative = false) :
    Numeral.ofDecimal d.negated = Scalar.neg (Numeral.ofDecimal d : α)

instance : Numeral.Signed Float where
  ofDecimal_negated d h := by
    cases d with
    | finite negative digits exponent =>
      obtain rfl : negative = false := h
      rfl
    | infinite negative =>
      obtain rfl : negative = false := h
      rfl
    | notANumber => rfl

namespace Decimal

/-- A word behind a minus sign reads as the opposite number. -/
theorem readWord?_true (s : List Char) : readWord? true s = (readWord? false s).map negated := by
  simp only [readWord?]
  repeat' split
  all_goals rfl

/-- Digits behind a minus sign read as the opposite number. -/
theorem readDigits?_true (s : List Char) :
    readDigits? true s = (readDigits? false s).map negated := by
  simp only [readDigits?]
  split
  · rfl
  · rw [Option.map_map]
    rfl

/-- A minus sign in front turns the number around. -/
theorem read?_minus {s : List Char} (h : splitSign s = (false, s)) :
    read? ('-' :: s) = (read? s).map negated := by
  have hsign : splitSign ('-' :: s) = (true, s) := rfl
  simp only [read?, h, hsign, readWord?_true, readDigits?_true]
  cases readWord? false s <;> rfl

/-- A plus sign makes no difference to a number that has no sign yet. -/
theorem read?_plus {s : List Char} (h : splitSign s = (false, s)) : read? ('+' :: s) = read? s := by
  have hsign : splitSign ('+' :: s) = (false, s) := rfl
  simp only [read?, h, hsign]

/-- An unsigned text writes no negative number. -/
theorem isNegative_of_read? {s : List Char} {d : Decimal} (hs : splitSign s = (false, s))
    (h : read? s = some d) : d.isNegative = false := by
  simp only [read?, hs, Option.or_eq_some_iff, readWord?, readDigits?] at h
  rcases h with h | ⟨-, h⟩
  · split at h
    · obtain rfl := Option.some.inj h
      rfl
    · obtain rfl := Option.some.inj (Option.ite_none_right_eq_some.1 h).2
      rfl
  · split at h
    · cases h
    · obtain ⟨e, -, rfl⟩ := Option.map_eq_some_iff.1 h
      rfl

/-- No word begins with a digit or a point. -/
theorem readWord?_eq_none {c : Char} (hc : c.isDigit = true ∨ c = '.') (negative : Bool)
    (s : List Char) :
    readWord? negative (c :: s) = none := by
  have hlower : c.toLower ≠ 'i' ∧ c.toLower ≠ 'n' := by
    rcases hc with hc | rfl
    · exact forall_ascii (P := fun c => c.isDigit = true → c.toLower ≠ 'i' ∧ c.toLower ≠ 'n')
        (by decide) (toNat_lt_of_isDigit hc) hc
    · decide
  simp [readWord?, hlower.1, hlower.2]

/-- A number that begins with a digit or a point has no sign. -/
theorem splitSign_of_mantissa {c : Char} (hc : c.isDigit = true ∨ c = '.') (s : List Char) :
    splitSign (c :: s) = (false, c :: s) := by
  unfold splitSign
  split
  · simp_all
  · simp_all
  · rfl

/-- What begins with a digit or a point is no word and has no sign. -/
theorem read?_of_mantissa {c : Char} (hc : c.isDigit = true ∨ c = '.') (s : List Char) :
    read? (c :: s) = readDigits? false (c :: s) := by
  simp only [read?, splitSign_of_mantissa hc, readWord?_eq_none hc, Option.none_or]

/-- Digits are a whole number, whatever else may follow. -/
theorem readDigits?_whole {ws rest : List Char} (hne : ws ≠ []) (hws : ∀ c ∈ ws, c.isDigit = true)
    (hrest : ∀ c ∈ rest.head?, c.isDigit = false ∧ c ≠ '.') (negative : Bool) :
    readDigits? negative (ws ++ rest) = (readExponent? rest).map
      (Decimal.finite negative (natOfDigits ws)) := by
  have hstop : ∀ c ∈ rest.head?, c.isDigit = false := fun c hc => (hrest c hc).1
  have hpoint : splitFraction rest = ([], rest) := by
    unfold splitFraction
    split
    · exact absurd rfl (hrest '.' rfl).2
    · rfl
  simp [readDigits?, takeWhile_append_of_stop hws hstop, dropWhile_append_of_stop hws hstop,
    hpoint, hne]

/-- Digits with a point among them are a number with as many places as digits follow the point. -/
theorem readDigits?_fraction {ws fs rest : List Char} (hne : ws ++ fs ≠ [])
    (hws : ∀ c ∈ ws, c.isDigit = true) (hfs : ∀ c ∈ fs, c.isDigit = true)
    (hrest : ∀ c ∈ rest.head?, c.isDigit = false) (negative : Bool) :
    readDigits? negative (ws ++ '.' :: (fs ++ rest)) =
      (readExponent? rest).map fun e =>
      .finite negative (natOfDigits (ws ++ fs)) (e - fs.length) := by
  have hpoint : ∀ c ∈ ('.' :: (fs ++ rest)).head?, c.isDigit = false := by simp
  have hempty : (ws.isEmpty && fs.isEmpty) = false := by
    simpa [Bool.and_eq_false_iff, imp_iff_not_or] using hne
  simp only [readDigits?, takeWhile_append_of_stop hws hpoint, dropWhile_append_of_stop hws hpoint,
    splitFraction, takeWhile_append_of_stop hfs hrest, dropWhile_append_of_stop hfs hrest, hempty,
    Bool.false_eq_true, if_false]

/-- Digits write a whole number. -/
theorem read?_digits {ws : List Char} (hne : ws ≠ []) (hws : ∀ c ∈ ws, c.isDigit = true) :
    read? ws = some (.finite false (natOfDigits ws) 0) := by
  have hread : readDigits? false (ws ++ []) = _ := readDigits?_whole hne hws (by simp) false
  obtain ⟨c, t, rfl⟩ := List.exists_cons_of_ne_nil hne
  rw [List.append_nil] at hread
  rw [read?_of_mantissa (.inl (hws c List.mem_cons_self)), hread]
  rfl

/-- Digits with a point among them write a number with as many places as digits follow the point. -/
theorem read?_fraction {ws fs : List Char} (hne : ws ++ fs ≠ []) (hws : ∀ c ∈ ws, c.isDigit = true)
    (hfs : ∀ c ∈ fs, c.isDigit = true) :
    read? (ws ++ '.' :: fs) =
      some (.finite false (natOfDigits (ws ++ fs)) (-(fs.length : Int))) := by
  have hread : readDigits? false (ws ++ '.' :: (fs ++ [])) = _ :=
    readDigits?_fraction hne hws hfs (by simp) false
  obtain ⟨c, s, hs, hc⟩ : ∃ c s, ws ++ '.' :: fs = c :: s ∧ (c.isDigit = true ∨ c = '.') := by
    cases ws with
    | nil => exact ⟨'.', fs, rfl, Or.inr rfl⟩
    | cons c ws => exact ⟨c, ws ++ '.' :: fs, rfl, Or.inl (hws c List.mem_cons_self)⟩
  rw [List.append_nil, hs] at hread
  rw [hs, read?_of_mantissa hc, hread]
  simp [readExponent?]

end Decimal

namespace Literal

/-- A run over digits stays in its phase of digits. -/
theorem run_digits {ws : List Char} (hws : ∀ c ∈ ws, c.isDigit = true) {p : Phase}
    (hp : p = .whole ∨ p = .fraction ∨ p = .exponent) : ws.foldlM Phase.next p = some p := by
  induction ws with
  | nil => rfl
  | cons c ws ih =>
    have hc := isDecimalDigit_of_isDigit (hws c List.mem_cons_self)
    have hnext : p.next c = some p := by
      rcases hp with rfl | rfl | rfl <;> simp [Phase.next, hc]
    rw [List.foldlM_cons, hnext]
    exact ih fun d hd => hws d (List.mem_cons_of_mem c hd)

/-- A run over digits alone ends among the digits of a whole number. -/
theorem run_whole {ws : List Char} (hne : ws ≠ []) (hws : ∀ c ∈ ws, c.isDigit = true) :
    ws.foldlM Phase.next .start = some .whole := by
  obtain ⟨c, ws, rfl⟩ := List.exists_cons_of_ne_nil hne
  have hstart : Phase.next .start c = some .whole := by
    simp [Phase.next, isDecimalDigit_of_isDigit (hws c List.mem_cons_self)]
  rw [List.foldlM_cons, hstart]
  exact run_digits (fun d hd => hws d (List.mem_cons_of_mem c hd)) (.inl rfl)

/-- A run over digits with a point among them ends among the digits of a fraction. -/
theorem run_fraction {ws fs : List Char} (hne : ws ++ fs ≠ []) (hws : ∀ c ∈ ws, c.isDigit = true)
    (hfs : ∀ c ∈ fs, c.isDigit = true) :
    (ws ++ '.' :: fs).foldlM Phase.next .start = some .fraction := by
  by_cases hempty : ws = []
  · subst hempty
    obtain ⟨c, fs, rfl⟩ := List.exists_cons_of_ne_nil hne
    have hpoint : Phase.next .start '.' = some .barePoint := rfl
    have hfirst : Phase.next .barePoint c = some .fraction := by
      simp [Phase.next, isDecimalDigit_of_isDigit (hfs c List.mem_cons_self)]
    rw [List.nil_append, List.foldlM_cons, hpoint, Option.bind_eq_bind, Option.bind_some,
      List.foldlM_cons, hfirst]
    exact run_digits (fun d hd => hfs d (List.mem_cons_of_mem c hd)) (.inr (.inl rfl))
  · have hpoint : Phase.next .whole '.' = some .fraction := rfl
    rw [List.foldlM_append, run_whole hempty hws, Option.bind_eq_bind, Option.bind_some,
      List.foldlM_cons, hpoint]
    exact run_digits hfs (.inr (.inl rfl))

/-- Digits are a literal. -/
theorem isLiteral_digits {ws : List Char} (hne : ws ≠ []) (hws : ∀ c ∈ ws, c.isDigit = true) :
    isLiteral ws = true := by
  have hrun := run_whole hne hws
  obtain ⟨c, ws, rfl⟩ := List.exists_cons_of_ne_nil hne
  have hc : c.isDigit = true := hws c List.mem_cons_self
  simp [isLiteral, Decimal.splitSign_of_mantissa (Or.inl hc), isDigits, hrun, Phase.isFinal]

/-- Digits with a point before, among or behind them are a literal. -/
theorem isLiteral_fraction {ws fs : List Char} (hne : ws ++ fs ≠ [])
    (hws : ∀ c ∈ ws, c.isDigit = true) (hfs : ∀ c ∈ fs, c.isDigit = true) :
    isLiteral (ws ++ '.' :: fs) = true := by
  have hrun := run_fraction hne hws hfs
  have hsign : Decimal.splitSign (ws ++ '.' :: fs) = (false, ws ++ '.' :: fs) := by
    cases ws with
    | nil => rfl
    | cons c ws => exact Decimal.splitSign_of_mantissa (.inl (hws c List.mem_cons_self)) _
  simp [isLiteral, hsign, isDigits, hrun, Phase.isFinal]

end Literal

end Formula
