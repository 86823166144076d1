import Mathlib.Data.List.TakeWhile
import Formula.Text.CharClass

/-!
# Characters and texts

What is told of ASCII characters by going through them all, and how far `takeWhile` and `dropWhile`
go in a text.
-/

namespace Formula

/-! ## ASCII -/

/-- What the first 128 characters satisfy, every character of ASCII satisfies. -/
theorem forall_ascii {P : Char → Prop} (h : ∀ n < 128, P (Char.ofNat n)) {c : Char}
    (hc : c.toNat < 128) :
    P c := by
  simpa using h c.toNat hc

/-- Letters are characters of ASCII. -/
theorem toNat_lt_of_isAlpha {c : Char} (h : c.isAlpha = true) : c.toNat < 128 := by
  rcases Bool.or_eq_true_iff.1 h with hupper | hlower
  · have hle : c.val ≤ 'Z'.val := (of_decide_eq_true hupper).2
    exact Nat.lt_of_le_of_lt (UInt32.le_iff_toNat_le.1 hle) (by decide)
  · have hle : c.val ≤ 'z'.val := of_decide_eq_true (Bool.and_eq_true_iff.1 hlower).2
    exact Nat.lt_of_le_of_lt (UInt32.le_iff_toNat_le.1 hle) (by decide)

/-- Digits are characters of ASCII. -/
theorem toNat_lt_of_isDigit {c : Char} (h : c.isDigit = true) : c.toNat < 128 := by
  simp only [Char.isDigit, Bool.and_eq_true, decide_eq_true_eq, UInt32.le_iff_toNat_le] at h
  simp only [Char.toNat]
  have h₁ : ('9'.val).toNat = 57 := rfl
  omega

/-- Of the digits of all scripts ASCII has its own ten. -/
theorem isDecimalDigit_eq_isDigit {c : Char} (hc : c.toNat < 128) :
    Text.isDecimalDigit c = c.isDigit :=
  forall_ascii (P := fun c => Text.isDecimalDigit c = c.isDigit) (by decide +kernel) hc

/-- The digits of ASCII are among all digits. -/
theorem isDecimalDigit_of_isDigit {c : Char} (h : c.isDigit = true) :
    Text.isDecimalDigit c = true := by
  rw [isDecimalDigit_eq_isDigit (toNat_lt_of_isDigit h), h]

/-- No letter is a digit. -/
theorem isDecimalDigit_of_isAlpha {c : Char} (h : c.isAlpha = true) :
    Text.isDecimalDigit c = false := by
  rw [isDecimalDigit_eq_isDigit (toNat_lt_of_isAlpha h)]
  exact forall_ascii (P := fun c => c.isAlpha = true → c.isDigit = false) (by decide)
    (toNat_lt_of_isAlpha h) h

/-- Neither a digit nor the point is a letter. -/
theorem not_isAlpha_of_digit_or_point {c : Char} (hc : c.isDigit = true ∨ c = '.') :
    c.isAlpha = false := by
  rcases hc with hc | rfl
  · rw [Bool.eq_false_iff]
    intro halpha
    have := isDecimalDigit_of_isAlpha halpha
    rw [isDecimalDigit_of_isDigit hc] at this
    cases this
  · rfl

/-! ## The first stop in a text -/

variable {p : Char → Bool} {s t : List Char}

/-- A text that passes a test is what is taken, if the character behind it does not pass. -/
theorem takeWhile_append_of_stop (hs : ∀ c ∈ s, p c = true) (ht : ∀ c ∈ t.head?, p c = false) :
    (s ++ t).takeWhile p = s := by
  rw [List.takeWhile_append_of_pos hs]
  cases t with
  | nil => exact List.append_nil s
  | cons c t => rw [List.takeWhile_cons_of_neg (Bool.eq_false_iff.1 (ht c rfl)), List.append_nil]

/-- A text that passes a test is what is dropped, if the character behind it does not pass. -/
theorem dropWhile_append_of_stop (hs : ∀ c ∈ s, p c = true) (ht : ∀ c ∈ t.head?, p c = false) :
    (s ++ t).dropWhile p = t := by
  rw [List.dropWhile_append_of_pos hs]
  cases t with
  | nil => rfl
  | cons c t => exact List.dropWhile_cons_of_neg (Bool.eq_false_iff.1 (ht c rfl))

end Formula
