import Formula.Proofs.Machine.Arithmetic

/-!
# Scientific notation

A number in scientific notation is the product or the quotient of its digits and a power of ten, and
the power is looked up in a table where digits and power are small. Either way the result is the
machine number to which the exact value belongs (`unpack_ofScientific`).
-/

namespace Formula.Machine

open Float.Model Float.Model.UnpackedFloat

variable {digits M : ℕ} {exponent E : ℤ} {x : ℚ}

/-! ## Computed powers -/

/-- What rounds to a machine number stays below the next higher exponent. -/
theorem RoundsTo.lt (hM : IsNormalized M E) (hx : RoundsTo M E x) : x < 2 ^ (53 + E) := by
  refine lt_two_zpow_add ?_
  have hlt : (M : ℚ) + 1 ≤ 2 ^ (53 : ℤ) := by exact_mod_cast hM.lt
  have := hx.nearest.le
  linarith

/-- What rounds to a machine number is at least half its last digit. -/
theorem RoundsTo.ge (hM : IsNormalized M E) (hx : RoundsTo M E x) : 2 ^ (-1 + E) ≤ x := by
  refine two_zpow_add_le ?_
  have hpos : (1 : ℚ) ≤ M := by exact_mod_cast hM.pos
  have := hx.nearest.ge
  norm_num
  linarith

/-- What rounds to a positive machine number is positive. -/
theorem RoundsTo.pos (hM : IsNormalized M E) (hx : RoundsTo M E x) : 0 < x :=
  (two_zpow_pos _).trans_le (hx.ge hM)

/-- No number this large is a machine number. -/
theorem exponent_le (hM : IsNormalized M E) (hE : E ≤ 971) (hdigits : digits ≠ 0)
    (hx : RoundsTo M E (digits * 10 ^ exponent)) : exponent ≤ 2048 := by
  by_contra hlarge
  have hone : (1 : ℚ) ≤ digits := by exact_mod_cast Nat.pos_of_ne_zero hdigits
  have hpower : (2 : ℚ) ^ exponent ≤ 10 ^ exponent :=
    zpow_le_zpow_left₀ (by omega) two_pos.le (by norm_num)
  have hless : (2 : ℚ) ^ exponent < 2 ^ (53 + E) := by
    refine hpower.trans_lt (lt_of_le_of_lt ?_ (hx.lt hM))
    exact le_mul_of_one_le_left (zpow_pos (by norm_num) _).le hone
  have := lt_of_two_zpow_lt hless
  omega

/-- No number this small is a machine number. -/
theorem exponent_ge (hM : IsNormalized M E) (hx : RoundsTo M E (digits * 10 ^ exponent)) :
    -(2048 + (digits.log2 : ℤ)) ≤ exponent := by
  by_contra hsmall
  have hE := hM.exponent_ge
  have hdigits : (digits : ℚ) < 2 ^ (digits.log2 + 1 : ℤ) := by
    have hlog := @Nat.lt_log2_self digits
    exact_mod_cast hlog
  have hpower : (10 : ℚ) ^ exponent ≤ 2 ^ exponent := by
    have hneg : (2 : ℚ) ^ (-exponent) ≤ 10 ^ (-exponent) :=
      zpow_le_zpow_left₀ (by omega) two_pos.le (by norm_num)
    rwa [zpow_neg, zpow_neg, inv_le_inv₀ (two_zpow_pos _) (zpow_pos (by norm_num) _)] at hneg
  have hless : (2 : ℚ) ^ (-1 + E) < 2 ^ (digits.log2 + 1 + exponent) := by
    refine (hx.ge hM).trans_lt ?_
    rw [zpow_add₀ two_ne_zero]
    exact mul_lt_mul hdigits hpower (zpow_pos (by norm_num) _) (two_zpow_pos _).le
  have := lt_of_two_zpow_lt hless
  omega

/-- Digits and a power of ten make the machine number to which their product belongs. -/
theorem ofScientific_eq (hM : IsNormalized M E) (hE : E ≤ 971)
    (hx : RoundsTo M E (digits * 10 ^ exponent)) :
    UnpackedFloat.ofScientific .binary64 digits exponent = .finite .positive M E hM.pos := by
  have hdigits : digits ≠ 0 := by
    rintro rfl
    have := hx.pos hM
    simp at this
  have hlarge : ¬ exponent > 2 ^ Format.binary64.exponentBits :=
    not_lt.2 (exponent_le hM hE hdigits hx)
  have hsmall : ¬ exponent < -((2 ^ Format.binary64.exponentBits : ℤ) + digits.log2) :=
    not_lt.2 (exponent_ge hM hx)
  rw [UnpackedFloat.ofScientific, dif_neg hdigits, if_neg hlarge, if_neg hsmall]
  split
  next hsign =>
    obtain ⟨k, rfl⟩ := Int.eq_ofNat_of_zero_le hsign
    refine mul_eq hM ?_ ?_
    · rw [Nat.shiftLeft_eq]
      calc 2 ^ 52 ≤ 1 * 2 ^ 53 * 1 := by norm_num
        _ ≤ digits * 2 ^ 53 * 10 ^ k :=
          Nat.mul_le_mul (Nat.mul_le_mul_right _ (Nat.pos_of_ne_zero hdigits))
            (Nat.pow_pos (by decide))
    · convert hx using 1
      rw [Nat.shiftLeft_eq]
      have hbits : Format.binary64.mantissaBits = 53 := rfl
      rw [hbits, Int.toNat_natCast, zpow_natCast, zpow_neg, zpow_natCast, zpow_zero, mul_one]
      push_cast
      field_simp
      norm_num
  next hsign =>
    obtain ⟨k, hk⟩ : ∃ k : ℕ, -exponent = k := Int.eq_ofNat_of_zero_le (by omega)
    have hexponent : exponent = -(k : ℤ) := by omega
    refine div_eq hM ?_
    convert hx using 1
    rw [hk, hexponent, Int.toNat_natCast, zpow_neg, zpow_natCast]
    push_cast
    field_simp

/-! ## Powers from the table -/

/-- A whole number of at most 53 digits, with all its digits in use. -/
theorem unpack_toFloat (hpos : 0 < digits) (hlt : digits < 2 ^ 53) :
    ∃ (M : ℕ) (E : ℤ) (h : 0 < M), 2 ^ 52 ≤ M ∧ (M * 2 ^ E : ℚ) = digits ∧
      digits.toUInt64.toFloat.toModel.unpack = .finite .positive M E h := by
  have hlog : digits.log2 < 53 := (Nat.log2_lt hpos.ne').2 hlt
  obtain ⟨k, hk⟩ : ∃ k, 52 - digits.log2 = k := ⟨_, rfl⟩
  have hfull : 2 ^ 52 ≤ digits * 2 ^ k := by
    calc 2 ^ 52 = 2 ^ digits.log2 * 2 ^ k := by rw [← Nat.pow_add]; congr 1; omega
      _ ≤ digits * 2 ^ k := Nat.mul_le_mul_right _ (Nat.log2_self_le hpos.ne')
  have hless : digits * 2 ^ k < 2 ^ 53 := by
    calc digits * 2 ^ k < 2 ^ (digits.log2 + 1) * 2 ^ k :=
          Nat.mul_lt_mul_of_pos_right Nat.lt_log2_self (Nat.pow_pos two_pos)
      _ = 2 ^ 53 := by rw [← Nat.pow_add]; congr 1; omega
  have hM : IsNormalized (digits * 2 ^ k) (-k) := ⟨by omega, hless, by omega, Or.inr hfull⟩
  refine ⟨digits * 2 ^ k, -k, hM.pos, hfull, ?_, ?_⟩
  · rw [zpow_neg, zpow_natCast]
    push_cast
    field_simp
  · have happrox : Approximates (.ofMantissaAndAccuracy (digits * 2 ^ k) .exact)
        ((digits * 2 ^ k : ℕ) * 2 ^ (-k : ℤ) / 2 ^ (-k : ℤ)) := by
      rw [mul_div_cancel_right₀ _ (two_zpow_pos _).ne']
      exact approximates_exact _
    have hround : UnpackedFloat.round .binary64 .positive digits 0 =
        .finite .positive (digits * 2 ^ k) (-k) hM.pos := by
      have hshift : (0 - max (digits.log2 + 0 - 52 : ℤ) (-1074)).toNat = k := by omega
      have hlogM := (Nat.le_log2 hM.pos.ne').2 hfull
      rw [UnpackedFloat.round, targetExponent_eq, decreaseExponent, hshift,
        Nat.shiftLeft_eq, zero_sub]
      exact roundWithAccuracy_eq .positive hM (roundsTo_self _ _) happrox (by omega)
    have hcast : digits.toUInt64.toNat = digits := by
      simp only [UInt64.toNat_ofNat']
      omega
    show (Float.Model.pack (UnpackedFloat.ofNat .binary64 digits.toUInt64.toNat)).unpack = _
    have hcompare : compare (digits : ℤ) 0 = .gt := by
      rw [Int.compare_eq_gt]
      omega
    rw [hcast, UnpackedFloat.ofNat, UnpackedFloat.ofInt, UnpackedFloat.normalize, hcompare]
    dsimp only
    rw [Int.toNat_natCast, hround, unpack_pack _ hM (by omega)]

/-- Is the machine number the power of ten, with all its digits in use? -/
def isPowerOfTen (k : ℕ) (x : Float) : Bool :=
  match x.toModel.unpack with
  | .finite .positive M E _ =>
    decide (2 ^ 52 ≤ M) && decide (-52 ≤ E) && decide (M * 2 ^ (E + 52).toNat = 10 ^ k * 2 ^ 52)
  | _ => false

/-- A power of ten that passes the test unpacks to a full mantissa with its exact value. -/
theorem unpack_of_isPowerOfTen {k : ℕ} {x : Float} (hx : isPowerOfTen k x = true) :
    ∃ (M : ℕ) (E : ℤ) (h : 0 < M), 2 ^ 52 ≤ M ∧ (M * 2 ^ E : ℚ) = 10 ^ k ∧
      x.toModel.unpack = .finite .positive M E h := by
  unfold isPowerOfTen at hx
  split at hx
  next M E h hunpack =>
    simp only [Bool.and_eq_true, decide_eq_true_eq] at hx
    obtain ⟨⟨hfull, hE⟩, hvalue⟩ := hx
    refine ⟨M, E, h, hfull, ?_, hunpack⟩
    obtain ⟨j, hj⟩ : ∃ j : ℕ, E + 52 = j := Int.eq_ofNat_of_zero_le (by omega)
    have hE' : E = j - 52 := by omega
    rw [hj, Int.toNat_natCast] at hvalue
    have hvalue' : (M * 2 ^ j : ℚ) = 10 ^ k * 2 ^ 52 := by exact_mod_cast hvalue
    rw [hE', zpow_sub₀ two_ne_zero, zpow_natCast, ← mul_div_assoc, hvalue']
    norm_num
  · cases hx

/-- All powers of ten in the table pass the test. -/
theorem isPowerOfTen_table : ∀ k : Fin Float.exactlyRepresentablePowersOfTen.size,
    isPowerOfTen k Float.exactlyRepresentablePowersOfTen[k] = true := by
  decide +kernel

/-- A number in scientific notation is the machine number to which its value belongs. -/
theorem unpack_ofScientific (hM : IsNormalized M E) (hE : E ≤ 971)
    (hx : RoundsTo M E (digits * 10 ^ exponent)) :
    (Float.ofScientific digits (decide (exponent < 0)) exponent.natAbs).toModel.unpack =
      .finite .positive M E hM.pos := by
  unfold Float.ofScientific
  split
  next hfast =>
    -- Digits and power are exact machine numbers, so rounding comes with the one operation on them.
    have hdigits : 0 < digits := by
      refine Nat.pos_of_ne_zero ?_
      rintro rfl
      have := hx.pos hM
      simp at this
    have hsize : exponent.natAbs < Float.exactlyRepresentablePowersOfTen.size := by
      simp only [Float.exactlyRepresentablePowersOfTen, List.size_toArray, List.length_cons,
        List.length_nil]
      omega
    obtain ⟨m, e, hm, hfull, hvalue, hunpack⟩ := unpack_toFloat hdigits hfast.1
    obtain ⟨p, q, hp, hpfull, hpower, hpunpack⟩ :=
      unpack_of_isPowerOfTen (isPowerOfTen_table ⟨exponent.natAbs, hsize⟩)
    dsimp only
    split
    next hsign =>
      have hquotient : RoundsTo M E (m * 2 ^ e / (p * 2 ^ q)) := by
        have hexponent : (10 : ℚ) ^ exponent = (10 ^ exponent.natAbs)⁻¹ := by
          rw [← zpow_natCast, ← zpow_neg, Int.ofNat_natAbs_of_nonpos (of_decide_eq_true hsign).le,
            neg_neg]
        rwa [hvalue, hpower, div_eq_mul_inv, ← hexponent]
      show (Float.Model.pack (UnpackedFloat.div .binary64 _ _)).unpack = _
      rw [hunpack,
        show Float.exactlyRepresentablePowersOfTen[exponent.natAbs].toModel.unpack = _ from
          hpunpack,
        div_eq hM hquotient, unpack_pack _ hM hE]
    next hsign =>
      have hproduct : RoundsTo M E (m * 2 ^ e * (p * 2 ^ q)) := by
        have hexponent : (10 : ℚ) ^ exponent = 10 ^ exponent.natAbs := by
          rw [← zpow_natCast, Int.natAbs_of_nonneg (not_lt.1 fun h => hsign (decide_eq_true h))]
        rwa [hvalue, hpower, ← hexponent]
      show (Float.Model.pack (UnpackedFloat.mul .binary64 _ _)).unpack = _
      rw [hunpack,
        show Float.exactlyRepresentablePowersOfTen[exponent.natAbs].toModel.unpack = _ from
          hpunpack,
        mul_eq hM (hfull.trans (Nat.le_mul_of_pos_right m hp)) hproduct, unpack_pack _ hM hE]
  next hslow =>
    -- The power is computed along with the digits, and only the result is rounded.
    have hsigned : (if decide (exponent < 0) then Int.negOfNat exponent.natAbs
        else Int.ofNat exponent.natAbs) = exponent := by
      split
      next hsign =>
        have := of_decide_eq_true hsign
        rw [Int.negOfNat_eq, Int.ofNat_eq_natCast]
        omega
      next hsign =>
        have : 0 ≤ exponent := not_lt.1 fun h => hsign (decide_eq_true h)
        rw [Int.ofNat_eq_natCast]
        omega
    show (Float.Model.pack (UnpackedFloat.ofScientific .binary64 digits _)).unpack = _
    rw [hsigned, ofScientific_eq hM hE hx, unpack_pack _ hM hE]

end Formula.Machine
