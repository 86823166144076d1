import Formula.Proofs.Machine.Scientific

/-!
# The shortest digits

The search for the shortest digits of a machine number stops at a decimal number that belongs to it,
on whichever grid that is, and the number in full, which is taken when no grid has one, belongs to
it as well (`roundsTo_shortest`).
-/

namespace Formula.Machine

variable {M t : ℕ} {E place : ℤ}

/-- A power with a nonnegative exponent over the one with the opposite exponent, of which one is
trivial. -/
theorem pow_toNat_eq {a : ℚ} (ha : a ≠ 0) (e : ℤ) : a ^ e.toNat = a ^ e * a ^ (-e).toNat := by
  rcases le_total 0 e with he | he
  · obtain ⟨k, rfl⟩ := Int.eq_ofNat_of_zero_le he
    have hnone : (-(k : ℤ)).toNat = 0 := by omega
    rw [hnone, Int.toNat_natCast, zpow_natCast, pow_zero, mul_one]
  · obtain ⟨k, hk⟩ : ∃ k : ℕ, -e = k := Int.eq_ofNat_of_zero_le (by omega)
    have he' : e = -(k : ℤ) := by omega
    have hnone : (-(k : ℤ)).toNat = 0 := by omega
    rw [hk, Int.toNat_natCast, he', hnone, zpow_neg, zpow_natCast, pow_zero,
      inv_mul_cancel₀ (pow_ne_zero k ha)]

/-- The integers that the search compares are, up to a common factor, the numbers of the grid in
quarters of the unit of the machine number. -/
theorem grid_eq (t : ℕ) (E place : ℤ) :
    ((t * (2 ^ (2 - E).toNat * 10 ^ place.toNat) : ℕ) : ℚ) =
      4 * (t * 10 ^ place / 2 ^ E) * (2 ^ (E - 2).toNat * 10 ^ (-place).toNat : ℕ) := by
  have htwo : (2 : ℚ) ^ (2 - E).toNat = 2 ^ (2 - E) * 2 ^ (E - 2).toNat := by
    have h := pow_toNat_eq (two_ne_zero (α := ℚ)) (2 - E)
    rwa [neg_sub] at h
  have hten : (10 : ℚ) ^ place.toNat = 10 ^ place * 10 ^ (-place).toNat :=
    pow_toNat_eq (by norm_num) place
  push_cast
  rw [htwo, hten, zpow_sub₀ two_ne_zero]
  have := two_zpow_pos E
  field_simp
  norm_num

/-- The lower end of the rounding interval of a number, in quarters of its last digit. -/
def lowerEnd (b : Binary) : ℕ :=
  4 * b.mantissa - if b.halfGapBelow then 1 else 2

/-- Does a number of so many units lie in the rounding interval, given the size of a quarter of the
last digit? -/
def Inside (b : Binary) (quarter size : ℕ) : Prop :=
  b.mantissa % 2 = 0 ∧ lowerEnd b * quarter ≤ size ∧ size ≤ (4 * b.mantissa + 2) * quarter ∨
    lowerEnd b * quarter < size ∧ size < (4 * b.mantissa + 2) * quarter

/-- A point of the grid is taken only when it lies in the rounding interval. -/
theorem inside_of_onGrid? {b : Binary} (h : b.onGrid? place = some t) :
    Inside b (2 ^ (b.exponent - 2).toNat * 10 ^ (-place).toNat)
      (t * (2 ^ (2 - b.exponent).toNat * 10 ^ place.toNat)) := by
  have hinside : ∀ quarter size : ℕ,
      (if b.mantissa % 2 = 0 then
        decide (lowerEnd b * quarter ≤ size) && decide (size ≤ (4 * b.mantissa + 2) * quarter)
      else decide (lowerEnd b * quarter < size) && decide (size < (4 * b.mantissa + 2) * quarter)) =
        true → Inside b quarter size := by
    intro quarter size hin
    split at hin
    next heven =>
      simp only [Bool.and_eq_true, decide_eq_true_eq] at hin
      exact Or.inl ⟨heven, hin⟩
    next =>
      simp only [Bool.and_eq_true, decide_eq_true_eq] at hin
      exact Or.inr hin
  unfold Binary.onGrid? at h
  simp only [Nat.pow_eq] at h
  split at h
  next hbelow habove =>
    split at h
    · obtain rfl := Option.some.inj h
      exact hinside _ _ hbelow
    · obtain rfl := Option.some.inj h
      exact hinside _ _ habove
  next hbelow _ =>
    obtain rfl := Option.some.inj h
    exact hinside _ _ hbelow
  next _ habove =>
    obtain rfl := Option.some.inj h
    exact hinside _ _ habove
  · cases h

/-- A value between the ends of the rounding interval belongs to the number. -/
theorem roundsTo_of_quarters {x : ℚ} (hM : 0 < M)
    (h : M % 2 = 0 ∧ lowerEnd (binary M E) ≤ 4 * (x / 2 ^ E) ∧ 4 * (x / 2 ^ E) ≤ (4 * M + 2 : ℕ) ∨
      lowerEnd (binary M E) < 4 * (x / 2 ^ E) ∧ 4 * (x / 2 ^ E) < (4 * M + 2 : ℕ)) :
    RoundsTo M E x := by
  have hwide : (4 * M - 2 : ℚ) ≤ lowerEnd (binary M E) := by
    have : 4 * M ≤ lowerEnd (binary M E) + 2 := by
      unfold lowerEnd
      split <;> simp only [binary] <;> omega
    have : (4 * M : ℚ) ≤ lowerEnd (binary M E) + 2 := by exact_mod_cast this
    linarith
  push_cast at h
  refine ⟨⟨?_, ?_, ?_⟩, fun hpow hE => ?_⟩
  · rcases h with ⟨-, h, -⟩ | ⟨h, -⟩ <;> linarith
  · rcases h with ⟨-, -, h⟩ | ⟨-, h⟩ <;> linarith
  · rcases h with ⟨h, -⟩ | ⟨hgt, hlt⟩
    · exact fun _ => h
    · rintro (heq | heq) <;> linarith
  · have hgap : 4 * M ≤ lowerEnd (binary M E) + 1 := by
      simp only [lowerEnd, binary, hpow, hE, decide_true, Bool.and_self, if_true]
      omega
    have : (4 * M : ℚ) ≤ lowerEnd (binary M E) + 1 := by exact_mod_cast hgap
    rcases h with ⟨-, h, -⟩ | ⟨h, -⟩ <;> linarith

/-- A point of a grid that is taken belongs to the number. -/
theorem roundsTo_of_onGrid? (hM : 0 < M) (h : (binary M E).onGrid? place = some t) :
    RoundsTo M E (t * 10 ^ place) := by
  have hinside := inside_of_onGrid? h
  obtain ⟨quarter, hquarter⟩ : ∃ q, 2 ^ (E - 2).toNat * 10 ^ (-place).toNat = q := ⟨_, rfl⟩
  obtain ⟨size, hsize⟩ : ∃ n, t * (2 ^ (2 - E).toNat * 10 ^ place.toNat) = n := ⟨_, rfl⟩
  have hpos : (0 : ℚ) < quarter := by
    rw [← hquarter]
    positivity
  have hgrid : (size : ℚ) = 4 * (t * 10 ^ place / 2 ^ E) * quarter := by
    rw [← hsize, ← hquarter]
    exact grid_eq t E place
  have hinside : Inside (binary M E) quarter size := by
    rw [← hquarter, ← hsize]
    exact hinside
  refine roundsTo_of_quarters hM ?_
  rcases hinside with ⟨heven, hlow, hhigh⟩ | ⟨hlow, hhigh⟩
  · refine Or.inl ⟨heven, le_of_mul_le_mul_right ?_ hpos, le_of_mul_le_mul_right ?_ hpos⟩ <;>
      rw [← hgrid]
    · exact_mod_cast hlow
    · exact_mod_cast hhigh
  · refine Or.inr ⟨lt_of_mul_lt_mul_right ?_ hpos.le, lt_of_mul_lt_mul_right ?_ hpos.le⟩ <;>
      rw [← hgrid]
    · exact_mod_cast hlow
    · exact_mod_cast hhigh

/-- The digits in full are the number itself. -/
theorem exact_eq (M : ℕ) (E : ℤ) :
    ((binary M E).exact.1 * 10 ^ (binary M E).exact.2 : ℚ) = M * 2 ^ E := by
  cases E with
  | ofNat e =>
    show ((M * 2 ^ e : ℕ) : ℚ) * 10 ^ (0 : ℤ) = M * 2 ^ (e : ℤ)
    push_cast
    rw [mul_one, zpow_natCast]
  | negSucc e =>
    show ((M * 5 ^ (e + 1) : ℕ) : ℚ) * 10 ^ Int.negSucc e = M * 2 ^ Int.negSucc e
    have hten : (10 : ℚ) ^ (e + 1) = 2 ^ (e + 1) * 5 ^ (e + 1) := by
      rw [← mul_pow]
      norm_num
    rw [zpow_negSucc, zpow_negSucc, hten]
    push_cast
    field_simp

/-- The digits found on the first grid round to the number. -/
theorem roundsTo_firstOnGrid (hM : 0 < M) (grids : ℕ) :
    RoundsTo M E (((binary M E).firstOnGrid grids place).1 *
      10 ^ ((binary M E).firstOnGrid grids place).2) := by
  induction grids generalizing place with
  | zero =>
    rw [Binary.firstOnGrid, exact_eq]
    exact roundsTo_self M E
  | succ grids ih =>
    rw [Binary.firstOnGrid]
    split
    next digits h => exact roundsTo_of_onGrid? hM h
    · exact ih

/-- The shortest digits of a number belong to it. -/
theorem roundsTo_shortest (hM : 0 < M) (E : ℤ) :
    RoundsTo M E ((binary M E).shortest.1 * 10 ^ (binary M E).shortest.2) :=
  roundsTo_firstOnGrid hM 20

end Formula.Machine
