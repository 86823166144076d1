import Formula.Proofs.Decimal
import Formula.Proofs.Machine.Shortest
import Formula.Proofs.Scalar

/-!
# Machine numbers read back

A machine number that is written and read again is the same number, unless it is not a number: the
digits that are written belong to it, and a decimal number is read as the machine number to which it
belongs.
-/

namespace Formula.Machine

open Float.Model Float.Model.UnpackedFloat

variable {digits M : ℕ} {exponent E : ℤ}

/-- The power of ten is multiplied out without a change of the value. -/
theorem expanded_eq (negative : Bool) (digits : ℕ) (exponent : ℤ) :
    ∃ (n : ℕ) (e : ℤ), (Decimal.finite negative digits exponent).expanded = .finite negative n e ∧
      (n * 10 ^ e : ℚ) = digits * 10 ^ exponent := by
  cases exponent with
  | ofNat zeros =>
    refine ⟨digits * 10 ^ zeros, 0, rfl, ?_⟩
    push_cast
    rw [mul_one, Int.ofNat_eq_natCast, zpow_natCast]
  | negSucc p => exact ⟨digits, .negSucc p, rfl, rfl⟩

/-- A decimal number is read as the machine number to which it belongs. -/
theorem unpack_toFloat_finite (sign : Sign) (hM : IsNormalized M E) (hE : E ≤ 971)
    (hx : RoundsTo M E (digits * 10 ^ exponent)) :
    (Decimal.toFloat (.finite (isNegative sign) digits exponent)).toModel.unpack =
      .finite sign M E hM.pos := by
  have hunpack := unpack_ofScientific hM hE hx
  cases sign with
  | positive => exact hunpack
  | negative =>
    show (Float.Model.pack (UnpackedFloat.neg _)).unpack = _
    rw [hunpack]
    exact unpack_pack .negative hM hE

/-- A machine number is read from its written form. -/
theorem toFloat_reread {x : Float} (h : x.isNaN = false) :
    Decimal.toFloat (Decimal.ofFloat x).reread = x := by
  have hnumber : x.toModel.unpack ≠ .notANumber := by
    intro hx
    have hnan : x.toModel.unpack.isNaN = false := h
    rw [hx] at hnan
    cases hnan
  refine (eq_of_unpack_eq ?_).symm
  rw [ofFloat_eq, Decimal.reread_eq]
  cases hx : x.toModel.unpack with
  | notANumber => exact absurd hx hnumber
  | infinity sign => cases sign <;> rfl
  | zero sign => cases sign <;> rfl
  | finite sign M E hM =>
    obtain ⟨hnormal, hE⟩ := isNormalized_of_unpack hx
    obtain ⟨n, e, hexpanded, hvalue⟩ :=
      expanded_eq (isNegative sign) (binary M E).shortest.1 (binary M E).shortest.2
    have hrounds : RoundsTo M E (n * 10 ^ e) := by
      rw [hvalue]
      exact roundsTo_shortest hM E
    rw [written, hexpanded, unpack_toFloat_finite sign hnormal hE hrounds]

/-- A machine number is the same after it was written and read back. -/
theorem same_toFloat_reread {x : Float} (h : x.isNaN = false) :
    Scalar.same (Decimal.toFloat (Decimal.ofFloat x).reread) x = true := by
  rw [toFloat_reread h]
  exact Scalar.same_self h

end Formula.Machine
