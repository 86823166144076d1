import Formula.Decimal.Shortest
import Formula.Proofs.Machine.Rounding

/-!
# Machine numbers and their bits

A machine number is a word of 64 bits, whose unpacked form tells its sign, its digits and its
exponent. The bits are read directly where a number is written, so `ofFloat_eq` says that the
written form depends on the unpacked form alone. The unpacked form in turn tells the number
(`eq_of_unpack_eq`). Unpacked numbers are normalized (`isNormalized_of_unpack`), and a normalized
number that is packed is unpacked as it was (`unpack_pack`).
-/

namespace Formula.Machine

open Float.Model Float.Model.UnpackedFloat

variable {b : BitVec Format.binary64.numBits} {M : ℕ} {E : ℤ}

/-! ## The fields of a word -/

/-- The fraction is the lowest 52 bits of the word. -/
theorem toNat_unpackMantissa : (unpackMantissa b).toNat = b.toNat % 2 ^ 52 := by
  simp [unpackMantissa, BitVec.extractLsb]

/-- The exponent is the eleven bits above the fraction. -/
theorem toNat_unpackExponent : (unpackExponent b).toNat = b.toNat / 2 ^ 52 % 2 ^ 11 := by
  simp [unpackExponent, BitVec.extractLsb, Nat.shiftRight_eq_div_pow]

/-- The sign is the highest bit of the word. -/
theorem toNat_unpackSign : (unpackSign b).toNat = b.toNat / 2 ^ 63 % 2 := by
  simp [unpackSign, BitVec.extractLsb, Nat.shiftRight_eq_div_pow]

/-- The leading one in front of the fraction adds its place value. -/
theorem toNat_full (f : BitVec 52) : (1#1 ++ f).toNat = 2 ^ 52 + f.toNat := by
  rw [BitVec.toNat_append, ← Nat.shiftLeft_add_eq_or_of_lt f.isLt]
  rfl

/-- The exponent and the fraction of a word tell which of the five kinds of number it unpacks to. -/
theorem unpack_eq (sign : Sign) (hsign : Sign.ofBitVec (unpackSign b) = sign) {a f : ℕ}
    (ha : (unpackExponent b).toNat = a) (hf : (unpackMantissa b).toNat = f) :
    (a = 2047 ∧ f = 0 ∧ UnpackedFloat.unpack .binary64 b = .infinity sign) ∨
      (a = 2047 ∧ f ≠ 0 ∧ UnpackedFloat.unpack .binary64 b = .notANumber) ∨
      (a = 0 ∧ f = 0 ∧ UnpackedFloat.unpack .binary64 b = .zero sign) ∨
      (a = 0 ∧ ∃ h : 0 < f, UnpackedFloat.unpack .binary64 b = .finite sign f (-1074) h) ∨
      (a ≠ 0 ∧ a ≠ 2047 ∧ ∃ h, UnpackedFloat.unpack .binary64 b =
        .finite sign (2 ^ 52 + f) (a - 1075) h) := by
  subst hsign ha hf
  have hall : unpackExponent b = -1#_ ↔ (unpackExponent b).toNat = 2047 := BitVec.toNat_inj.symm
  have hnone : unpackExponent b = 0#_ ↔ (unpackExponent b).toNat = 0 := BitVec.toNat_inj.symm
  have hzero : unpackMantissa b = 0#_ ↔ (unpackMantissa b).toNat = 0 := BitVec.toNat_inj.symm
  by_cases h : unpackExponent b = -1#_
  · by_cases h' : unpackMantissa b = 0#_
    · exact .inl ⟨hall.1 h, hzero.1 h', by simp [UnpackedFloat.unpack, h, h']⟩
    · exact .inr (.inl ⟨hall.1 h, fun hf => h' (hzero.2 hf), by simp [UnpackedFloat.unpack, h, h']⟩)
  · by_cases h' : unpackExponent b = 0#_
    · by_cases h'' : unpackMantissa b = 0#_
      · exact .inr (.inr (.inl ⟨hnone.1 h', hzero.1 h'', by simp [UnpackedFloat.unpack, h', h'']⟩))
      · have hpos : 0 < (unpackMantissa b).toNat := Nat.pos_of_ne_zero fun hf => h'' (hzero.2 hf)
        refine .inr (.inr (.inr (.inl ⟨hnone.1 h', hpos, ?_⟩)))
        simp [UnpackedFloat.unpack, h', h'']
        rfl
    · refine .inr (.inr (.inr (.inr ⟨fun ha => h' (hnone.2 ha),
        fun ha => h (hall.2 ha), by omega, ?_⟩)))
      simp only [UnpackedFloat.unpack, h, h', if_false]
      congr 1
      exact toNat_full _

/-- The sign that is packed is the sign that is unpacked. -/
theorem ofBitVec_unpackSign_packComponents (sign : Sign) (a : BitVec 11) (f : BitVec 52) :
    Sign.ofBitVec (unpackSign (packComponents .binary64 sign a f)) = sign := by
  have hsign : unpackSign (packComponents .binary64 sign a f) = sign.toBitVec := by
    rw [unpackSign, packComponents, BitVec.extractLsb,
      BitVec.extractLsb'_append_eq_of_le (by decide),
      BitVec.extractLsb'_append_eq_of_le (by decide)]
    cases sign <;> rfl
  rw [hsign]
  cases sign <;> rfl

/-- A machine number is told by its unpacked form. -/
theorem eq_of_unpack_eq {x y : Float} (h : x.toModel.unpack = y.toModel.unpack) : x = y :=
  Float.toBits_inj.1
    (UInt64.toBitVec_inj.1 ((unpack_inj_of_valid x.toModel.valid y.toModel.valid).1 h))

/-! ## Packed numbers -/

/-- A normalized number whose exponent is not too large is unpacked as it was packed. -/
theorem unpack_pack (sign : Sign) (hM : IsNormalized M E) (hE : E ≤ 971) :
    (Float.Model.pack (.finite sign M E hM.pos)).unpack = .finite sign M E hM.pos := by
  have hge := hM.exponent_ge
  have hlt := hM.lt
  have hbiased : (E + (Format.binary64.exponentBias : ℕ) + (52 : ℕ)).toNat = (E + 1075).toNat := by
    have hbias : Format.binary64.exponentBias = 1023 := rfl
    rw [hbias]
    congr 1
    omega
  show UnpackedFloat.unpack .binary64 (UnpackedFloat.pack .binary64 (.finite sign M E hM.pos)) = _
  rw [UnpackedFloat.pack, hbiased, if_neg (by simp; omega)]
  by_cases hfull : 2 ^ 52 ≤ M
  · have hlog : M.log2 + 1 = Format.binary64.mantissaBits := by
      show M.log2 + 1 = 53
      have := (Nat.le_log2 hM.pos.ne').2 hfull
      have := (Nat.log2_lt hM.pos.ne').2 hM.lt
      omega
    rw [if_pos hlog]
    have hexp : (BitVec.ofNat 11 (E + 1075).toNat).toNat = (E + 1075).toNat := by
      rw [BitVec.toNat_ofNat]
      omega
    have hmant : (BitVec.ofNat 52 M).toNat = M - 2 ^ 52 := by
      rw [BitVec.toNat_ofNat]
      omega
    rcases unpack_eq sign (ofBitVec_unpackSign_packComponents sign _ _)
      ((congrArg BitVec.toNat unpackExponent_packComponents).trans hexp)
      ((congrArg BitVec.toNat unpackMantissa_packComponents).trans hmant) with
      h | h | h | h | ⟨-, -, h, heq⟩
    · omega
    · omega
    · omega
    · omega
    · have hM' : 2 ^ 52 + (M - 2 ^ 52) = M := by omega
      have hE' : ((E + 1075).toNat : ℤ) - 1075 = E := by omega
      simp only [heq, hM', hE']
  · have hlog : M.log2 + 1 ≠ Format.binary64.mantissaBits := by
      show M.log2 + 1 ≠ 53
      have := (Nat.log2_lt hM.pos.ne').2 (not_le.1 hfull)
      omega
    rw [if_neg hlog]
    have hmant : (BitVec.ofNat 52 M).toNat = M := by
      rw [BitVec.toNat_ofNat]
      omega
    have hmin := hM.full.resolve_right hfull
    have hexp : (0#11).toNat = 0 := rfl
    rcases unpack_eq sign (ofBitVec_unpackSign_packComponents sign _ _)
      ((congrArg BitVec.toNat unpackExponent_packComponents).trans hexp)
      ((congrArg BitVec.toNat unpackMantissa_packComponents).trans hmant) with
      h | h | h | ⟨-, h, heq⟩ | h
    · omega
    · omega
    · exact absurd h.2.1 hM.pos.ne'
    · simp only [heq, hmin]
    · exact absurd rfl h.1

/-- Every finite number is normalized, and its exponent is not too large. -/
theorem isNormalized_of_unpack {x : Float.Model} {sign : Sign} {h : 0 < M}
    (hx : x.unpack = .finite sign M E h) :
    IsNormalized M E ∧ E ≤ 971 := by
  have ha : x.toBits.toNat / 2 ^ 52 % 2 ^ 11 < 2 ^ 11 := Nat.mod_lt _ (by decide)
  have hf : x.toBits.toNat % 2 ^ 52 < 2 ^ 52 := Nat.mod_lt _ (by decide)
  rcases unpack_eq _ rfl toNat_unpackExponent toNat_unpackMantissa with
    ⟨-, -, heq⟩ | ⟨-, -, heq⟩ | ⟨-, -, heq⟩ | ⟨-, hpos, heq⟩ | ⟨hzero, hall, hpos, heq⟩
  · cases heq.symm.trans hx
  · cases heq.symm.trans hx
  · cases heq.symm.trans hx
  · cases heq.symm.trans hx
    exact ⟨⟨hpos, by omega, le_refl _, Or.inl rfl⟩, by omega⟩
  · cases heq.symm.trans hx
    exact ⟨⟨hpos, by omega, by omega, Or.inr (by omega)⟩, by omega⟩

/-! ## Written numbers -/

/-- Does the number have a minus sign? -/
def isNegative : Sign → Bool
  | .negative => true
  | .positive => false

/-- The number `M * 2 ^ E` as the search for its shortest digits takes it. -/
def binary (M : ℕ) (E : ℤ) : Binary :=
  ⟨M, E, decide (M = 2 ^ 52) && decide (-1074 < E)⟩

/-- A full mantissa is at a power of two when its fraction is zero, and then the gap below is halved
unless the exponent is the smallest. -/
theorem binary_full (a f : ℕ) :
    binary (2 ^ 52 + f) (a - 1075) = ⟨2 ^ 52 + f, a - 1075, decide (f = 0) && decide (1 < a)⟩ := by
  have hfull : 2 ^ 52 + f = 2 ^ 52 ↔ f = 0 := by omega
  have hexp : -1074 < (a : ℤ) - 1075 ↔ 1 < a := by omega
  rw [binary, decide_eq_decide.2 hfull, decide_eq_decide.2 hexp]

/-- The written form of an unpacked number. -/
def written : UnpackedFloat → Decimal
  | .infinity sign => .infinite (isNegative sign)
  | .notANumber => .notANumber
  | .zero sign => .finite (isNegative sign) 0 0
  | .finite sign M E _ => .finite (isNegative sign) (binary M E).shortest.1 (binary M E).shortest.2

/-- The highest bit tells whether the number is negative. -/
theorem isNegative_eq (b : BitVec Format.binary64.numBits) :
    decide (b.toNat / 2 ^ 63 % 2 = 1) = isNegative (Sign.ofBitVec (unpackSign b)) := by
  rw [← toNat_unpackSign, Sign.ofBitVec]
  split
  next h =>
    rw [h]
    rfl
  next h =>
    have hne : (unpackSign b).toNat ≠ 0 := fun hzero => h (BitVec.toNat_inj.1 hzero)
    have hlt := (unpackSign b).isLt
    have hone : (unpackSign b).toNat = 1 := by omega
    rw [hone]
    rfl

/-- The bits of a machine number are written as the number they unpack to. -/
theorem ofFloat_eq (x : Float) : Decimal.ofFloat x = written x.toModel.unpack := by
  have hneg := isNegative_eq x.toModel.toBits.toBitVec
  have hunpack : x.toModel.unpack = UnpackedFloat.unpack .binary64 x.toModel.toBits.toBitVec := rfl
  rw [hunpack]
  unfold Decimal.ofFloat
  generalize hb : x.toModel.toBits.toBitVec = b at hneg
  have hbits : x.toBits.toNat = b.toNat := congrArg BitVec.toNat hb
  simp only [hbits, Nat.pow_eq, hneg]
  rcases unpack_eq _ rfl (toNat_unpackExponent (b := b)) toNat_unpackMantissa with
    ⟨ha, hf, heq⟩ | ⟨ha, hf, heq⟩ | ⟨ha, hf, heq⟩ | ⟨ha, hpos, heq⟩ | ⟨hzero, hall, hpos, heq⟩
  · rw [heq, if_pos ha, if_pos hf, written]
  · rw [heq, if_pos ha, if_neg hf, written]
  · rw [heq, if_neg (by omega), if_pos ha, if_pos hf, written]
  · rw [heq, if_neg (by omega), if_pos ha, if_neg hpos.ne', written]
    have hbinary : binary (b.toNat % 2 ^ 52) (-1074) = ⟨b.toNat % 2 ^ 52, -1074, false⟩ := by
      simp [binary]
    rw [hbinary]
  · rw [heq, if_neg hall, if_neg hzero, written]
    rw [binary_full]

end Formula.Machine
