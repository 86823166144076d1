import Formula.Proofs.Machine.Word

/-!
# Values of machine numbers

A finite machine number is a fraction, `Machine.value`. The sign goes over from the number to its
value.
-/

namespace Formula.Machine

open Float.Model Float.Model.UnpackedFloat

/-- A number is written in digits exactly when it is finite. -/
theorem isFinite_eq (x : Float) : Numeral.isFinite x = x.isFinite := by
  show (Decimal.ofFloat x).isFinite = x.toModel.unpack.isFinite
  rw [ofFloat_eq]
  cases x.toModel.unpack <;> rfl

/-- A finite number is a number. -/
theorem isNaN_of_isFinite {x : Float} (h : x.isFinite = true) : x.isNaN = false := by
  have h : x.toModel.unpack.isFinite = true := h
  show x.toModel.unpack.isNaN = false
  cases hx : x.toModel.unpack with
  | notANumber =>
    rw [hx] at h
    cases h
  | infinity | zero | finite => rfl

/-- The value of a machine number. What is infinite or not a number has none and counts as zero. -/
def value (x : Float) : ℚ :=
  match x.toModel.unpack with
  | .finite sign M E _ => if isNegative sign then -(M * 2 ^ E) else M * 2 ^ E
  | _ => 0

/-- Negation changes the sign of the unpacked number. -/
theorem unpack_neg (x : Float) : (-x).toModel.unpack = x.toModel.unpack.neg := by
  show (Float.Model.pack x.toModel.unpack.neg).unpack = _
  cases hx : x.toModel.unpack with
  | notANumber => rfl
  | infinity sign => cases sign <;> rfl
  | zero sign => cases sign <;> rfl
  | finite sign M E hM =>
    obtain ⟨hnormal, hE⟩ := isNormalized_of_unpack hx
    exact unpack_pack (-sign) hnormal hE

/-- The value of the opposite number is the opposite value. -/
theorem value_neg (x : Float) : value (-x) = -value x := by
  rw [value, unpack_neg, value]
  cases x.toModel.unpack with
  | notANumber | infinity | zero => exact neg_zero.symm
  | finite sign =>
    cases sign with
    | negative => exact (neg_neg _).symm
    | positive => rfl

/-- The machine number one has the value one. -/
theorem value_one : value 1 = 1 := by
  have hone : (1 : Float).toModel.unpack = .finite .positive (2 ^ 52) (-52) (by decide) := rfl
  rw [value, hone]
  norm_num [isNegative]

end Formula.Machine
