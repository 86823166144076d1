import Mathlib
import Formula.Proofs.Reading.Run

/-!
# Written numbers read back

The written form of a number is its sign and the written form of its magnitude, which is a literal:
digits, digits with a point among them, or a word. So it reads as a number again, `Decimal.reread`,
and as a run of symbols it goes on with the letters behind it.
-/

namespace Formula

open Reading

namespace Decimal

/-- The number without its sign. -/
def magnitude : Decimal → Decimal
  | finite _ digits exponent => finite false digits exponent
  | infinite _ => infinite false
  | notANumber => notANumber

/-- The number that the written form of a number reads as. -/
def reread (d : Decimal) : Decimal :=
  (read? d.text).getD notANumber

/-- A number without its sign is not negative. -/
@[simp] theorem isNegative_magnitude (d : Decimal) : d.magnitude.isNegative = false := by
  cases d <;> rfl

/-- A number is written as its sign and its magnitude. -/
theorem text_eq (d : Decimal) : d.text = sign d.isNegative ++ d.magnitude.text := by
  cases d <;> rfl

/-- A negative number is written with a minus sign before its magnitude. -/
theorem text_of_isNegative {d : Decimal} (h : d.isNegative = true) :
    d.text = '-' :: d.magnitude.text := by
  rw [text_eq, h]
  rfl

/-- A number without a sign is its own magnitude. -/
theorem magnitude_of_not_isNegative {d : Decimal} (h : d.isNegative = false) : d.magnitude = d := by
  cases d with
  | notANumber => rfl
  | finite negative =>
    obtain rfl : negative = false := h
    rfl
  | infinite negative =>
    obtain rfl : negative = false := h
    rfl

/-- The digits of a natural number are digits. -/
theorem isDigit_of_mem_toDigits {n : Nat} : ∀ c ∈ Nat.toDigits 10 n, c.isDigit = true :=
  fun _ hc => Nat.isDigit_of_mem_toDigits (by decide) (by decide) hc

/-- The digits of a natural number with zeros put in front are digits. -/
theorem isDigit_of_mem_leftpad {n p : Nat} :
    ∀ c ∈ (Nat.toDigits 10 n).leftpad p '0', c.isDigit = true := by
  intro c hc
  rcases List.mem_append.1 hc with hc | hc
  · rw [List.eq_of_mem_replicate hc]
    rfl
  · exact isDigit_of_mem_toDigits c hc

/-- Positional notation is digits, or digits with a point among them. -/
theorem positional_cases (digits : Nat) (exponent : Int) :
    (∃ ws, ws ≠ [] ∧ (∀ c ∈ ws, c.isDigit = true) ∧ positional digits exponent = ws) ∨
      ∃ ws fs, ws ++ fs ≠ [] ∧ (∀ c ∈ ws, c.isDigit = true) ∧ (∀ c ∈ fs, c.isDigit = true) ∧
        positional digits exponent = ws ++ '.' :: fs := by
  cases exponent with
  | ofNat zeros => exact Or.inl ⟨_, Nat.toDigits_ne_nil, isDigit_of_mem_toDigits, rfl⟩
  | negSucc p =>
    exact Or.inr ⟨_, _, List.append_ne_nil_of_left_ne_nil Nat.toDigits_ne_nil _,
      isDigit_of_mem_toDigits, isDigit_of_mem_leftpad, rfl⟩

/-- What is needed of the written form of a number without a sign. -/
theorem text_cases (d : Decimal) (h : d.isNegative = false) :
    (d.text = ['i', 'n', 'f'] ∨ d.text = ['N', 'a', 'N'] ∨
      ∀ c ∈ d.text, c.isDigit = true ∨ c = '.') ∧
      d.text ≠ [] ∧ Literal.isLiteral d.text = true ∧ (read? d.text).isSome = true := by
  cases d with
  | infinite negative =>
    obtain rfl : negative = false := h
    exact ⟨Or.inl rfl, by decide, by decide, by decide⟩
  | notANumber => exact ⟨Or.inr (Or.inl rfl), by decide, by decide, by decide⟩
  | finite negative digits exponent =>
    obtain rfl : negative = false := h
    simp only [text, sign, Bool.false_eq_true, if_false, List.nil_append]
    rcases positional_cases digits exponent with ⟨ws, hne, hws, htext⟩ |
      ⟨ws, fs, hne, hws, hfs, htext⟩
    · rw [htext]
      refine ⟨Or.inr (Or.inr fun c hc => Or.inl (hws c hc)), hne,
        Literal.isLiteral_digits hne hws, ?_⟩
      rw [read?_digits hne hws]
      rfl
    · rw [htext]
      refine ⟨Or.inr (Or.inr ?_), by simp, Literal.isLiteral_fraction hne hws hfs, ?_⟩
      · intro c hc
        simp only [List.mem_append, List.mem_cons] at hc
        rcases hc with hc | rfl | hc
        · exact Or.inl (hws c hc)
        · exact Or.inr rfl
        · exact Or.inl (hfs c hc)
      · rw [read?_fraction hne hws hfs]
        rfl

/-- A number without a sign is written in letters, digits and points. -/
theorem isSymbolChar_of_mem_text {d : Decimal} (h : d.isNegative = false) :
    ∀ c ∈ d.text, IsSymbolChar c := by
  intro c hc
  rcases (text_cases d h).1 with htext | htext | hdigits
  · rw [htext] at hc
    simp only [List.mem_cons, List.not_mem_nil, or_false] at hc
    rcases hc with rfl | rfl | rfl <;> exact Or.inl rfl
  · rw [htext] at hc
    simp only [List.mem_cons, List.not_mem_nil, or_false] at hc
    rcases hc with rfl | rfl | rfl <;> exact Or.inl rfl
  · exact Or.inr (hdigits c hc)

/-- No function name stands in a number. -/
theorem not_infix_text {d : Decimal} (h : d.isNegative = false) :
    ∀ f ∈ Symbol.functions, ¬ f.name <:+: d.text := by
  intro f hf hsub
  rcases (text_cases d h).1 with htext | htext | hdigits
  · rw [htext] at hsub
    revert f
    decide
  · rw [htext] at hsub
    revert f
    decide
  · obtain ⟨c, hc⟩ := List.exists_mem_of_length_pos f.name_length_pos
    have halpha := isAlpha_of_mem_name (mem_functions.1 hf) c hc
    rw [not_isAlpha_of_digit_or_point (hdigits c (hsub.subset hc))] at halpha
    cases halpha

/-- The text of a number without a sign is read. -/
theorem read?_text_of_not_isNegative {d : Decimal} (h : d.isNegative = false) :
    read? d.text = some d.reread := by
  obtain ⟨m, hm⟩ := Option.isSome_iff_exists.1 (text_cases d h).2.2.2
  rw [reread, hm, Option.getD_some]

/-- The sign of a number goes over to what it reads as. -/
theorem reread_of_isNegative {d : Decimal} (h : d.isNegative = true) :
    d.reread = d.magnitude.reread.negated ∧ d.magnitude.reread.isNegative = false := by
  have hsign := splitSign_of_symbolChars (isSymbolChar_of_mem_text (isNegative_magnitude d))
  have hread := read?_text_of_not_isNegative (isNegative_magnitude d)
  refine ⟨?_, isNegative_of_read? hsign hread⟩
  rw [reread, text_of_isNegative h, read?_minus hsign, hread, Option.map_some, Option.getD_some]

/-- The number with a nonnegative power of ten multiplied out, as it is written. -/
def expanded : Decimal → Decimal
  | finite negative digits (.ofNat zeros) => finite negative (digits * 10 ^ zeros) 0
  | d => d

/-- The digits of a natural number write it. -/
theorem natOfDigits_toDigits (n : Nat) : natOfDigits (Nat.toDigits 10 n) = n :=
  Nat.ofDigitChars_ten_toDigits

/-- Digits behind others shift these by as many places. -/
theorem natOfDigits_append (s t : List Char) :
    natOfDigits (s ++ t) = 10 ^ t.length * natOfDigits s + natOfDigits t :=
  (Nat.ofDigitChars_append 0).trans Nat.ofDigitChars_eq_ofDigitChars_zero

/-- The digits behind the point, of which there are as many as the power of ten asks for. -/
theorem natOfDigits_leftpad (n p : Nat) : natOfDigits ((Nat.toDigits 10 n).leftpad p '0') = n := by
  have hzeros : ∀ k, natOfDigits (List.replicate k '0') = 0 :=
    fun k => Nat.ofDigitChars_replicate_zero
  rw [List.leftpad, natOfDigits_append, hzeros, natOfDigits_toDigits, Nat.mul_zero, Nat.zero_add]

/-- A number padded to more places than it has digits fills them all. -/
theorem length_leftpad_toDigits {n p : Nat} (h : n < 10 ^ (p + 1)) :
    ((Nat.toDigits 10 n).leftpad (p + 1) '0').length = p + 1 := by
  have hlength := (Nat.length_toDigits_le_iff (by decide) (Nat.succ_pos p)).2 h
  rw [List.length_leftpad]
  omega

/-- A number without a sign comes back with its power of ten multiplied out. -/
theorem reread_eq_of_not_isNegative {d : Decimal} (h : d.isNegative = false) :
    d.reread = d.expanded := by
  cases d with
  | notANumber => rfl
  | infinite negative =>
    obtain rfl : negative = false := h
    rfl
  | finite negative digits exponent =>
    obtain rfl : negative = false := h
    cases exponent with
    | ofNat zeros =>
      have htext : text (finite false digits (.ofNat zeros)) =
        Nat.toDigits 10 (digits * 10 ^ zeros) := rfl
      rw [reread, htext, read?_digits Nat.toDigits_ne_nil isDigit_of_mem_toDigits,
        natOfDigits_toDigits]
      rfl
    | negSucc p =>
      have htext : text (finite false digits (.negSucc p)) =
        Nat.toDigits 10 (digits / 10 ^ (p + 1)) ++
          '.' :: (Nat.toDigits 10 (digits % 10 ^ (p + 1))).leftpad (p + 1) '0' := rfl
      have hlength :=
        length_leftpad_toDigits (Nat.mod_lt digits (Nat.pow_pos (n := p + 1) (by decide : 0 < 10)))
      rw [reread, htext, read?_fraction (List.append_ne_nil_of_left_ne_nil Nat.toDigits_ne_nil _)
        isDigit_of_mem_toDigits isDigit_of_mem_leftpad, natOfDigits_append, hlength,
        natOfDigits_toDigits, natOfDigits_leftpad, Nat.div_add_mod]
      rfl

/-- The written form of a number reads as the number. -/
theorem reread_eq (d : Decimal) : d.reread = d.expanded := by
  cases h : d.isNegative with
  | false => exact reread_eq_of_not_isNegative h
  | true =>
    rw [(reread_of_isNegative h).1, reread_eq_of_not_isNegative (isNegative_magnitude d)]
    cases d with
    | notANumber => rfl
    | infinite negative =>
      obtain rfl : negative = true := h
      rfl
    | finite negative digits exponent =>
      obtain rfl : negative = true := h
      cases exponent <;> rfl

variable {α : Type} [Numeral α]

/-- The written form of a number without a sign is a run. -/
theorem isRun_text {d : Decimal} (h : d.isNegative = false) :
    IsRun d.text (.num (Numeral.ofDecimal d.reread : α)) where
  ne_nil := (text_cases d h).2.1
  chars := isSymbolChar_of_mem_text h
  nameless := not_infix_text h
  reads := by
    rw [readPart_literal (text_cases d h).2.2.1, readNumber, read?_text_of_not_isNegative h]

end Decimal

/-- A negative number reads as what its magnitude reads as, negated. -/
theorem Numeral.ofDecimal_reread {α : Type} [Numeral α] [Numeral.Signed α] {d : Decimal}
    (h : d.isNegative = true) :
    (Numeral.ofDecimal d.reread : α) = Scalar.neg (Numeral.ofDecimal d.magnitude.reread) := by
  obtain ⟨hreread, hmagnitude⟩ := Decimal.reread_of_isNegative h
  rw [hreread, Numeral.Signed.ofDecimal_negated _ hmagnitude]

end Formula
