import Mathlib

/-!
# Rounding to machine numbers

A product or quotient is rounded by shifting its digits to the exponent that its size asks for and
rounding the last one, half to even. `Approximates` says what a shifted mantissa tells about the
exact value, and `RoundsTo` which values belong to a machine number. A value that does is rounded to
that number (`roundWithAccuracy_eq`).
-/

namespace Formula.Machine

open Float.Model Float.Model.UnpackedFloat

variable {em : ExtendedMantissa} {x : ℚ} {M m : ℕ} {E e : ℤ}

/-! ## Shifted mantissas -/

/-- The mantissa is the value rounded down, and the two bits tell how the value compares with the
middle between the mantissa and the next one. -/
structure Approximates (em : ExtendedMantissa) (x : ℚ) : Prop where
  le : em.mantissa ≤ x
  lt : x < em.mantissa + 1
  roundBit : em.roundBit = true ↔ em.mantissa + 1 / 2 ≤ x
  stickyBit : em.stickyBit = true ↔ x ≠ em.mantissa ∧ x ≠ em.mantissa + 1 / 2

/-- A whole number is approximated by itself. -/
theorem approximates_exact (m : ℕ) : Approximates (.ofMantissaAndAccuracy m .exact) m := by
  refine ⟨le_refl _, lt_add_one _, ?_, ?_⟩
  · simp [ExtendedMantissa.ofMantissaAndAccuracy]
  · simp [ExtendedMantissa.ofMantissaAndAccuracy]

/-- A value that is no whole number has a bit set. -/
theorem Approximates.bits_iff (h : Approximates em x) :
    (em.roundBit || em.stickyBit) = true ↔ x ≠ em.mantissa := by
  rw [Bool.or_eq_true, h.roundBit, h.stickyBit]
  constructor
  · rintro (hround | ⟨hne, -⟩) rfl
    · linarith
    · exact hne rfl
  · intro hne
    by_cases hhalf : x = em.mantissa + 1 / 2
    · exact Or.inl hhalf.ge
    · exact Or.inr ⟨hne, hhalf⟩

/-- Dropping the last bit approximates half of the value. -/
theorem Approximates.shiftRightOne (h : Approximates em x) :
    Approximates em.shiftRightOne (x / 2) := by
  have hle := h.le
  have hlt := h.lt
  have hbits := h.bits_iff
  obtain ⟨k, hk⟩ : ∃ k, em.mantissa / 2 = k := ⟨_, rfl⟩
  have hmantissa : em.shiftRightOne.mantissa = k := hk
  have hsticky : em.shiftRightOne.stickyBit = (em.roundBit || em.stickyBit) := rfl
  have hround : em.shiftRightOne.roundBit = (em.mantissa % 2 != 0) := rfl
  rcases Nat.mod_two_eq_zero_or_one em.mantissa with hmod | hmod
  · have heven : (em.mantissa : ℚ) = 2 * k := by
      have : em.mantissa = 2 * k := by omega
      exact_mod_cast this
    rw [heven] at hle hlt hbits
    refine ⟨?_, ?_, ?_, ?_⟩ <;> rw [hmantissa]
    · linarith
    · linarith
    · rw [hround, hmod]
      simp only [bne_self_eq_false, Bool.false_eq_true, false_iff, not_le]
      linarith
    · rw [hsticky, hbits]
      constructor
      · intro hne
        exact ⟨fun heq => hne (by linarith), fun heq => by linarith⟩
      · rintro ⟨hne, -⟩ heq
        exact hne (by linarith)
  · have hodd : (em.mantissa : ℚ) = 2 * k + 1 := by
      have : em.mantissa = 2 * k + 1 := by omega
      exact_mod_cast this
    rw [hodd] at hle hlt hbits
    refine ⟨?_, ?_, ?_, ?_⟩ <;> rw [hmantissa]
    · linarith
    · linarith
    · rw [hround, hmod]
      simp only [Nat.one_ne_zero, bne_iff_ne, ne_eq, not_false_eq_true, true_iff]
      linarith
    · rw [hsticky, hbits]
      constructor
      · intro hne
        exact ⟨fun heq => by linarith, fun heq => hne (by linarith)⟩
      · rintro ⟨-, hne⟩ heq
        exact hne (by linarith)

/-- Dropping bits approximates the value divided by a power of two. -/
theorem Approximates.shiftRight (h : Approximates em x) (n : ℕ) :
    Approximates (em >>> n) (x / 2 ^ n) := by
  induction n with
  | zero =>
    rw [pow_zero, div_one]
    exact h
  | succ n ih =>
    have hstep : em >>> (n + 1) = (em >>> n).shiftRightOne := rfl
    rw [hstep, pow_succ, ← div_div]
    exact ih.shiftRightOne

/-! ## Rounding the last digit -/

/-- Is the value rounded to this whole number? The two middles belong to it when it is even. -/
structure Nearest (M : ℕ) (x : ℚ) : Prop where
  ge : M - 1 / 2 ≤ x
  le : x ≤ M + 1 / 2
  even : x = M - 1 / 2 ∨ x = M + 1 / 2 → M % 2 = 0

/-- An approximation rounds to the nearest whole number. -/
theorem Approximates.roundedMantissa (h : Approximates em x) (hx : Nearest M x) :
    em.roundedMantissa = M := by
  have hle := h.le
  have hlt := h.lt
  have hge := hx.ge
  have hle' := hx.le
  have hround := h.roundBit
  have hsticky := h.stickyBit
  obtain ⟨m, r, s⟩ := em
  dsimp only at hle hlt hround hsticky
  have hM : m = M ∨ m + 1 = M := by
    have hupper : m < M + 1 := by
      have : (m : ℚ) < M + 1 := by linarith
      exact_mod_cast this
    have hlower : M < m + 2 := by
      have : (M : ℚ) < m + 2 := by linarith
      exact_mod_cast this
    omega
  rcases hM with rfl | rfl
  · -- The value is at most halfway up, and halfway only from an even mantissa.
    cases r with
    | false => cases s <;> rfl
    | true =>
      have hhalf : x = m + 1 / 2 := le_antisymm hle' (hround.1 rfl)
      have heven := hx.even (Or.inr hhalf)
      cases s with
      | true => exact absurd hhalf (hsticky.1 rfl).2
      | false =>
        show m + m % 2 = m
        omega
  · -- The value is at least halfway up, and halfway only to an even mantissa.
    push_cast at hge
    have hr : r = true := hround.2 (by linarith)
    subst hr
    cases s with
    | true => rfl
    | false =>
      have hhalf : x = m + 1 / 2 := by
        by_contra hne
        have hm : x = m := by
          by_contra hne'
          exact absurd (hsticky.2 ⟨hne', hne⟩) Bool.false_ne_true
        rw [hm] at hge
        linarith
      have heven := hx.even (Or.inl (by push_cast; linarith))
      show m + m % 2 = m + 1
      omega

/-! ## Machine numbers -/

/-- Is `M * 2 ^ E` the form of a machine number? It has 53 digits, or fewer at the smallest
exponent. -/
structure IsNormalized (M : ℕ) (E : ℤ) : Prop where
  pos : 0 < M
  lt : M < 2 ^ 53
  exponent_ge : -1074 ≤ E
  full : E = -1074 ∨ 2 ^ 52 ≤ M

/-- Does the value belong to the machine number `M * 2 ^ E`? Below a power of two the numbers lie
more densely. -/
structure RoundsTo (M : ℕ) (E : ℤ) (x : ℚ) : Prop where
  nearest : Nearest M (x / 2 ^ E)
  dense : M = 2 ^ 52 → -1074 < E → M - 1 / 4 ≤ x / 2 ^ E

/-- The exponent that a value of this size is shifted to. -/
theorem targetExponent_eq (m : ℕ) (e : ℤ) :
    Format.binary64.targetExponent (totalExponent m e) = max (m.log2 + e - 52) (-1074) := by
  simp only [Format.targetExponent, totalExponent, Format.mantissaBits, Format.minExponent]
  norm_num
  congr 1
  ring

/-- Powers of two are positive. -/
theorem two_zpow_pos (e : ℤ) : (0 : ℚ) < 2 ^ e :=
  zpow_pos two_pos e

/-- Of two powers of two the smaller has the smaller exponent. -/
theorem lt_of_two_zpow_lt {a b : ℤ} (h : (2 : ℚ) ^ a < 2 ^ b) : a < b :=
  (zpow_lt_zpow_iff_right₀ one_lt_two).1 h

/-- A bound from above for the scaled value bounds the value. -/
theorem lt_two_zpow_add {a : ℤ} (h : x / 2 ^ e < 2 ^ a) : x < 2 ^ (a + e) := by
  rw [zpow_add₀ two_ne_zero]
  exact (div_lt_iff₀ (two_zpow_pos e)).1 h

/-- A bound from below for the scaled value bounds the value. -/
theorem two_zpow_add_le {a : ℤ} (h : 2 ^ a ≤ x / 2 ^ e) : 2 ^ (a + e) ≤ x := by
  rw [zpow_add₀ two_ne_zero]
  exact (le_div_iff₀ (two_zpow_pos e)).1 h

/-- The size of a value is told by the number of digits of its mantissa. -/
theorem lt_two_zpow_of_lt (h : x / 2 ^ e < m + 1) : x < 2 ^ (m.log2 + 1 + e) := by
  have hm : (m : ℚ) + 1 ≤ 2 ^ (m.log2 + 1 : ℤ) := by
    have hlog : m + 1 ≤ 2 ^ (m.log2 + 1) := Nat.lt_log2_self
    exact_mod_cast hlog
  exact lt_two_zpow_add (h.trans_le hm)

/-- The highest bit of a whole number below the scaled value bounds the value from below. -/
theorem two_zpow_le_of_le (hm : m ≠ 0) (h : m ≤ x / 2 ^ e) : 2 ^ (m.log2 + e) ≤ x := by
  have hlog : (2 : ℚ) ^ (m.log2 : ℤ) ≤ m := by exact_mod_cast Nat.log2_self_le hm
  exact two_zpow_add_le (hlog.trans h)

/-- No value of a machine number is shifted to a larger exponent. -/
theorem targetExponent_le (hM : IsNormalized M E) (hx : RoundsTo M E x) (hle : m ≤ x / 2 ^ e)
    (hfit : e ≤ max (m.log2 + e - 52) (-1074)) : max (m.log2 + e - 52) (-1074) ≤ E := by
  have hE := hM.exponent_ge
  rcases eq_or_ne m 0 with rfl | hm
  · simp only [Nat.log2_zero, Nat.cast_zero, zero_add] at hfit ⊢
    omega
  · have hupper : x / 2 ^ E < 2 ^ (53 : ℤ) := by
      have hlt : (M : ℚ) + 1 ≤ 2 ^ (53 : ℤ) := by exact_mod_cast hM.lt
      have := hx.nearest.le
      linarith
    have hlog := lt_of_two_zpow_lt ((two_zpow_le_of_le hm hle).trans_lt (lt_two_zpow_add hupper))
    omega

/-- A value is shifted to the exponent of the machine number it belongs to, or to the one below when
it lies below a power of two. -/
theorem targetExponent_of_roundsTo (hM : IsNormalized M E) (hx : RoundsTo M E x)
    (hle : m ≤ x / 2 ^ e) (hlt : x / 2 ^ e < m + 1) (hfit : e ≤ max (m.log2 + e - 52) (-1074)) :
    max (m.log2 + e - 52) (-1074) = E ∨
      max (m.log2 + e - 52) (-1074) = E - 1 ∧ M = 2 ^ 52 ∧ -1074 < E ∧ x < 2 ^ (52 + E) := by
  have hE := hM.exponent_ge
  have htarget := targetExponent_le hM hx hle hfit
  have hx' := lt_two_zpow_of_lt hlt
  rcases hM.full with hmin | hfull
  · omega
  rcases hfull.eq_or_lt with rfl | hfull
  · by_cases hmin : E = -1074
    · omega
    have hlower : (2 : ℚ) ^ (51 : ℤ) ≤ x / 2 ^ E := by
      refine le_trans ?_ (hx.dense rfl (by omega))
      norm_num
    have hlog := lt_of_two_zpow_lt ((two_zpow_add_le hlower).trans_lt hx')
    by_cases heq : max (m.log2 + e - 52) (-1074) = E
    · exact Or.inl heq
    · have hbelow : x < 2 ^ (52 + E) :=
        hx'.trans_le (zpow_le_zpow_right₀ one_le_two (by omega))
      exact Or.inr ⟨by omega, rfl, by omega, hbelow⟩
  · have hlower : (2 : ℚ) ^ (52 : ℤ) ≤ x / 2 ^ E := by
      have hM' : (2 : ℚ) ^ (52 : ℤ) + 1 ≤ M := by exact_mod_cast hfull
      have := hx.nearest.ge
      linarith
    have hlog := lt_of_two_zpow_lt ((two_zpow_add_le hlower).trans_lt hx')
    omega

/-- Digits that fit are not shifted. -/
theorem shiftToTargetExponent_exact (hM : IsNormalized M E) :
    shiftToTargetExponent Format.binary64 M E .exact = (⟨M, false, false⟩, E) := by
  have hE := hM.exponent_ge
  have hlog : M.log2 ≤ 52 := by
    have := (Nat.log2_lt hM.pos.ne').2 hM.lt
    omega
  have hshift : (max (M.log2 + E - 52) (-1074) - E).toNat = 0 := by omega
  rw [shiftToTargetExponent, targetExponent_eq, shiftToExponent, hshift]
  simp [ExtendedMantissa.ofMantissaAndAccuracy, HShiftRight.hShiftRight, Nat.repeat]

/-- Digits that have carried over are shifted back by one. -/
theorem shiftToTargetExponent_carry (hE : -1074 ≤ E) :
    shiftToTargetExponent Format.binary64 (2 ^ 53) E .exact = (⟨2 ^ 52, false, false⟩, E + 1) := by
  have hlog : (2 ^ 53).log2 = 53 := Nat.log2_two_pow
  have hshift : (max (((2 ^ 53).log2 : ℕ) + E - 52) (-1074) - E).toNat = 1 := by
    rw [hlog]
    omega
  rw [shiftToTargetExponent, targetExponent_eq, shiftToExponent, hshift]
  simp [ExtendedMantissa.ofMantissaAndAccuracy, HShiftRight.hShiftRight, Nat.repeat,
    ExtendedMantissa.shiftRightOne]

/-- A value just below a power of two is rounded up to it. -/
theorem nearest_carry (hge : ((2 ^ 52 : ℕ) : ℚ) - 1 / 4 ≤ x / 2 ^ E) (hlt : x < 2 ^ (52 + E)) :
    Nearest (2 ^ 53) (x / 2 ^ (E - 1)) := by
  have hdouble : x / 2 ^ (E - 1) = 2 * (x / 2 ^ E) := by
    rw [zpow_sub_one₀ two_ne_zero]
    field_simp
  have hupper : x / 2 ^ E < 2 ^ 52 := by
    rw [div_lt_iff₀ (two_zpow_pos E)]
    rwa [zpow_add₀ two_ne_zero] at hlt
  push_cast at hge
  refine ⟨?_, ?_, fun _ => by norm_num⟩ <;> push_cast <;> linarith

/-- A value is rounded to the machine number that it belongs to. -/
theorem roundWithAccuracy_eq (sign : Sign) {accuracy : Accuracy} (hM : IsNormalized M E)
    (hx : RoundsTo M E x) (h : Approximates (.ofMantissaAndAccuracy m accuracy) (x / 2 ^ e))
    (hfit : e ≤ max (m.log2 + e - 52) (-1074)) :
    roundWithAccuracy Format.binary64 sign m e accuracy = .finite sign M E hM.pos := by
  have hmantissa : (ExtendedMantissa.ofMantissaAndAccuracy m accuracy).mantissa = m := by
    cases accuracy with
    | exact => rfl
    | inexact o => cases o <;> rfl
  have hle := h.le
  have hlt := h.lt
  rw [hmantissa] at hle hlt
  have htarget := targetExponent_of_roundsTo hM hx hle hlt hfit
  obtain ⟨t, ht⟩ : ∃ t, max (m.log2 + e - 52) (-1074) = t := ⟨_, rfl⟩
  rw [ht] at htarget hfit
  have hcast : e + ((t - e).toNat : ℤ) = t := by omega
  have hshifted := h.shiftRight (t - e).toNat
  have hvalue : x / 2 ^ e / 2 ^ (t - e).toNat = x / 2 ^ t := by
    rw [div_div, ← zpow_natCast, ← zpow_add₀ two_ne_zero, hcast]
  rw [hvalue] at hshifted
  have hfirst : shiftToTargetExponent Format.binary64 m e accuracy =
      (ExtendedMantissa.ofMantissaAndAccuracy m accuracy >>> (t - e).toNat, t) := by
    rw [shiftToTargetExponent, targetExponent_eq, ht, shiftToExponent, hcast]
  rw [roundWithAccuracy, hfirst]
  dsimp only
  rcases htarget with rfl | ⟨rfl, rfl, hE, hbelow⟩
  · simp only [hshifted.roundedMantissa hx.nearest, shiftToTargetExponent_exact hM, hM.pos.ne',
      dite_false]
  · have hcarry := nearest_carry (hx.dense rfl hE) hbelow
    rw [hshifted.roundedMantissa hcarry, shiftToTargetExponent_carry (by omega)]
    simp

end Formula.Machine
