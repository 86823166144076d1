import Formula.Proofs.Machine.Word

/-!
# Products, quotients and scientific notation

The product and the quotient of two machine numbers are rounded once, so each is the machine number
to which the exact value belongs. A number in scientific notation is such a product or quotient of
its digits and a power of ten, whether the power is looked up in a table or computed
(`unpack_ofScientific`).
-/

namespace Formula.Machine

open Float.Model Float.Model.UnpackedFloat

variable {m₁ m₂ n M : ℕ} {e₁ e₂ E : ℤ} {h₁ : 0 < m₁} {h₂ : 0 < m₂} {x : ℚ}

/-! ## Products and quotients -/

/-- A normalized number belongs to itself. -/
theorem roundsTo_self (M : ℕ) (E : ℤ) : RoundsTo M E (M * 2 ^ E) := by
  have hself : (M * 2 ^ E : ℚ) / 2 ^ E = M := mul_div_cancel_right₀ _ (two_zpow_pos E).ne'
  refine ⟨⟨?_, ?_, ?_⟩, fun _ _ => ?_⟩ <;> rw [hself]
  · linarith
  · linarith
  · rintro (h | h) <;> linarith
  · linarith

/-- A product with enough digits is the machine number to which the exact product belongs. -/
theorem mul_eq (hM : IsNormalized M E) (hfull : 2 ^ 52 ≤ m₁ * m₂)
    (hx : RoundsTo M E (m₁ * 2 ^ e₁ * (m₂ * 2 ^ e₂))) :
    UnpackedFloat.mul .binary64 (.finite .positive m₁ e₁ h₁) (.finite .positive m₂ e₂ h₂) =
      .finite .positive M E hM.pos := by
  have hlog : 52 ≤ (m₁ * m₂).log2 := (Nat.le_log2 (Nat.mul_pos h₁ h₂).ne').2 hfull
  have hvalue : (m₁ * 2 ^ e₁ * (m₂ * 2 ^ e₂) : ℚ) / 2 ^ (e₁ + e₂) = (m₁ * m₂ : ℕ) := by
    rw [div_eq_iff (two_zpow_pos _).ne', zpow_add₀ two_ne_zero]
    push_cast
    ring
  have happrox : Approximates (.ofMantissaAndAccuracy (m₁ * m₂) .exact)
      (m₁ * 2 ^ e₁ * (m₂ * 2 ^ e₂) / 2 ^ (e₁ + e₂)) := by
    rw [hvalue]
    exact approximates_exact _
  show roundWithAccuracy .binary64 .positive (m₁ * m₂) (e₁ + e₂) .exact = _
  exact roundWithAccuracy_eq .positive hM hx happrox (by omega)

/-- A whole number and the order of a fraction and one half approximate the whole number with the
fraction behind it. -/
theorem approximates_inexact (q : ℕ) {f : ℚ} {order : Ordering} (hpos : 0 < f) (hlt : f < 1)
    (horder : order.Compares f (1 / 2)) :
    Approximates (.ofMantissaAndAccuracy q (.inexact order)) (q + f) := by
  cases order with
  | lt =>
    have hhalf : f < 1 / 2 := horder
    refine ⟨?_, ?_, ?_, ?_⟩ <;> simp only [ExtendedMantissa.ofMantissaAndAccuracy]
    · linarith
    · linarith
    · simp only [Bool.false_eq_true, false_iff, not_le]
      linarith
    · simp only [true_iff]
      exact ⟨by linarith, by linarith⟩
  | eq =>
    have hhalf : f = 1 / 2 := horder
    refine ⟨?_, ?_, ?_, ?_⟩ <;> simp only [ExtendedMantissa.ofMantissaAndAccuracy]
    · linarith
    · linarith
    · simp only [true_iff]
      linarith
    · simp only [Bool.false_eq_true, false_iff, not_and, not_not]
      exact fun _ => by rw [hhalf]
  | gt =>
    have hhalf : 1 / 2 < f := horder
    refine ⟨?_, ?_, ?_, ?_⟩ <;> simp only [ExtendedMantissa.ofMantissaAndAccuracy]
    · linarith
    · linarith
    · simp only [true_iff]
      linarith
    · simp only [true_iff]
      exact ⟨by linarith, by linarith⟩

/-- A quotient of natural numbers, rounded down, with how its remainder compares with half the
divisor. -/
theorem approximates_div (a : ℕ) {d : ℕ} (hd : 0 < d) :
    Approximates (.ofMantissaAndAccuracy (a / d) (accuracyOfFraction (a % d) d)) (a / d) := by
  have hd' : (0 : ℚ) < d := by exact_mod_cast hd
  have hvalue : (a : ℚ) / d = (a / d : ℕ) + (a % d : ℕ) / d := by
    have hsum : (a : ℚ) = d * (a / d : ℕ) + (a % d : ℕ) := by
      exact_mod_cast (Nat.div_add_mod a d).symm
    rw [div_eq_iff hd'.ne', add_mul, div_mul_cancel₀ _ hd'.ne']
    linarith
  rw [hvalue]
  unfold accuracyOfFraction
  split
  next hzero =>
    rw [hzero, Nat.cast_zero, zero_div, add_zero]
    exact approximates_exact _
  next hzero =>
    have hpos : (0 : ℚ) < (a % d : ℕ) / d :=
      div_pos (by exact_mod_cast Nat.pos_of_ne_zero hzero) hd'
    have hlt : ((a % d : ℕ) : ℚ) / d < 1 := (div_lt_one hd').2 (by exact_mod_cast Nat.mod_lt a hd)
    refine approximates_inexact _ hpos hlt ?_
    cases hcompare : compare (2 * (a % d)) d with
    | lt =>
      have hless := Nat.compare_eq_lt.1 hcompare
      show ((a % d : ℕ) : ℚ) / d < 1 / 2
      rw [div_lt_div_iff₀ hd' two_pos]
      exact_mod_cast (by omega : a % d * 2 < 1 * d)
    | eq =>
      have hequal := Nat.compare_eq_eq.1 hcompare
      show ((a % d : ℕ) : ℚ) / d = 1 / 2
      rw [div_eq_div_iff hd'.ne' two_ne_zero]
      exact_mod_cast (by omega : a % d * 2 = 1 * d)
    | gt =>
      have hmore := Nat.compare_eq_gt.1 hcompare
      show 1 / 2 < ((a % d : ℕ) : ℚ) / d
      rw [div_lt_div_iff₀ two_pos hd']
      exact_mod_cast (by omega : 1 * d < a % d * 2)

/-- A dividend with 53 digits more than the divisor has a quotient of enough digits. -/
theorem full_quotient {k : ℕ} (h₁ : 0 < m₁) (h₂ : 0 < m₂) (h : m₂.log2 + 53 ≤ m₁.log2 + k) :
    2 ^ 52 ≤ m₁ * 2 ^ k / m₂ := by
  rw [Nat.le_div_iff_mul_le h₂]
  calc 2 ^ 52 * m₂ ≤ 2 ^ 52 * 2 ^ (m₂.log2 + 1) := Nat.mul_le_mul_left _ Nat.lt_log2_self.le
    _ = 2 ^ (m₂.log2 + 53) := by rw [← Nat.pow_add, Nat.add_comm 52]
    _ ≤ 2 ^ (m₁.log2 + k) := Nat.pow_le_pow_right two_pos h
    _ ≤ m₁ * 2 ^ k := by
      rw [Nat.pow_add]
      exact Nat.mul_le_mul_right _ (Nat.log2_self_le h₁.ne')

/-- A quotient is the machine number to which the exact quotient belongs. -/
theorem div_eq (hM : IsNormalized M E) (hx : RoundsTo M E (m₁ * 2 ^ e₁ / (m₂ * 2 ^ e₂))) :
    UnpackedFloat.div .binary64 (.finite .positive m₁ e₁ h₁) (.finite .positive m₂ e₂ h₂) =
      .finite .positive M E hM.pos := by
  obtain ⟨t, ht⟩ : ∃ t, min (e₁ - e₂) (max (m₁.log2 + e₁ - (m₂.log2 + e₂) - 53) (-1074)) = t :=
    ⟨_, rfl⟩
  obtain ⟨k, hk⟩ : ∃ k, (e₁ - e₂ - t).toNat = k := ⟨_, rfl⟩
  have hshift : e₁ - e₂ - t = k := by omega
  have hcore : divCore .binary64 m₁ e₁ m₂ e₂ =
      (m₁ * 2 ^ k / m₂, t, accuracyOfFraction (m₁ * 2 ^ k % m₂) m₂) := by
    have htarget : Format.targetExponent .binary64 (totalExponent m₁ e₁ - totalExponent m₂ e₂) =
        max (m₁.log2 + e₁ - (m₂.log2 + e₂) - 53) (-1074) := by
      simp only [Format.targetExponent, totalExponent, Format.mantissaBits, Format.minExponent]
      norm_num
      congr 1
      ring
    rw [divCore, htarget, ht, hk, Nat.shiftLeft_eq]
  have hvalue : (m₁ * 2 ^ e₁ / (m₂ * 2 ^ e₂) : ℚ) / 2 ^ t = (m₁ * 2 ^ k : ℕ) / m₂ := by
    have he : e₁ = k + e₂ + t := by omega
    have hm₂ : (m₂ : ℚ) ≠ 0 := by exact_mod_cast h₂.ne'
    rw [he, zpow_add₀ two_ne_zero, zpow_add₀ two_ne_zero, zpow_natCast]
    push_cast
    field_simp
  have happrox : Approximates (.ofMantissaAndAccuracy (m₁ * 2 ^ k / m₂)
    (accuracyOfFraction (m₁ * 2 ^ k % m₂) m₂))
      (m₁ * 2 ^ e₁ / (m₂ * 2 ^ e₂) / 2 ^ t) := by
    rw [hvalue]
    exact approximates_div _ h₂
  have hfit : t ≤ max ((m₁ * 2 ^ k / m₂).log2 + t - 52) (-1074) := by
    by_cases hmin : t ≤ -1074
    · omega
    · have hfull : 2 ^ 52 ≤ m₁ * 2 ^ k / m₂ := full_quotient h₁ h₂ (by omega)
      have hlog := (Nat.le_log2 (by omega)).2 hfull
      omega
  simp only [UnpackedFloat.div, hcore]
  exact roundWithAccuracy_eq .positive hM hx happrox hfit

end Formula.Machine
