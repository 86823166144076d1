import Formula.Proofs.Exact.Simplification
import Formula.Proofs.Expr.Reordered
import Formula.Proofs.Simplification.Reduced

/-!
# Polynomials

Over exact numbers a polynomial that is differentiated more often than its degree says becomes the
number zero (`Expr.nthDerivative_eq_zero`). The degree is read off the tree, so simplification could
raise it where it takes out factors and joins powers; it never does (`DegreeLE.simplify`).
Differentiation lowers it by one, but only in a simplified tree, in which no exponent is zero
(`DegreeLE.exists_derivative`). Nothing but zero has a degree below every number, `⊥`, and a
simplified tree of that degree is a leaf (`DegreeLE.eq_zero`).
-/

namespace Formula

section

variable {α : Type} [CommRing α] [Scalar α] [Scalar.Exact α]

instance : Scalar.Symmetric α where
  same_comm a b := by rw [Bool.eq_iff_iff, Scalar.Exact.same_iff, Scalar.Exact.same_iff, eq_comm]

instance [CharZero α] : Scalar.TellsApart α where
  two := by
    simp only [← Bool.not_eq_true, Scalar.isZero_iff, Scalar.isOne_iff, Scalar.Exact.ofInt_eq]
    norm_cast
  minusOne := by
    simp only [← Bool.not_eq_true, Scalar.isZero_iff, Scalar.isOne_iff, Scalar.Exact.ofInt_eq]
    norm_cast

end

namespace Expr

variable {α : Type} [CommRing α]

/-! ## Numerals and degrees -/

/-- The tree is a number, or it is built from numbers by sums, differences, products and powers to
natural exponents and stands for this number. -/
def IsNumeral : Expr α → α → Prop
  | num y, x => y = x
  | add l r, x => ∃ a b, l.IsNumeral a ∧ r.IsNumeral b ∧ a + b = x
  | sub l r, x => ∃ a b, l.IsNumeral a ∧ r.IsNumeral b ∧ a - b = x
  | mul l r, x => ∃ a b, l.IsNumeral a ∧ r.IsNumeral b ∧ a * b = x
  | pow l r, x => ∃ a, ∃ n : ℕ, l.IsNumeral a ∧ r.IsNumeral n ∧ a ^ n = x
  | _, _ => False

/-- The tree is a polynomial in a variable whose degree, read off its operations, is at most this.
The degree of zero is `⊥`, below all numbers. -/
def DegreeLE (v : Char) : Expr α → WithBot ℕ → Prop
  | num x, d => x ≠ 0 → 0 ≤ d
  | var w, d => w = v ∧ 1 ≤ d
  | add l r, d => l.DegreeLE v d ∧ r.DegreeLE v d
  | sub l r, d => l.DegreeLE v d ∧ r.DegreeLE v d
  | mul l r, d => ∃ a b, l.DegreeLE v a ∧ r.DegreeLE v b ∧ a + b ≤ d
  | pow l r, d => ∃ a, ∃ n : ℕ, l.DegreeLE v a ∧ r.IsNumeral n ∧ n • a ≤ d
  | _, _ => False

/-- The tree is a polynomial in a variable, with natural numbers as exponents, and its operations
say that this is its degree. -/
inductive FormalDegree (v : Char) : Expr α → ℕ → Prop
  | num (x) : FormalDegree v (num x) 0
  | var : FormalDegree v (var v) 1
  | add {l r m n} : FormalDegree v l m → FormalDegree v r n → FormalDegree v (add l r) (max m n)
  | sub {l r m n} : FormalDegree v l m → FormalDegree v r n → FormalDegree v (sub l r) (max m n)
  | mul {l r m n} : FormalDegree v l m → FormalDegree v r n → FormalDegree v (mul l r) (m + n)
  | pow {l m} (n : ℕ) : FormalDegree v l m → FormalDegree v (pow l (num (n : α))) (n * m)

variable {e l r : Expr α} {x : α} {v : Char} {d d' : WithBot ℕ}

/-- A numeral has no variables. -/
theorem IsNumeral.isConstant (h : e.IsNumeral x) : e.isConstant = true := by
  induction e generalizing x with
  | num => rfl
  | add _ _ ihl ihr | sub _ _ ihl ihr | mul _ _ ihl ihr | pow _ _ ihl ihr =>
    obtain ⟨a, b, hl, hr, -⟩ := h
    exact Bool.and_eq_true_iff.2 ⟨ihl hl, ihr hr⟩
  | _ => exact h.elim

/-- A bound of the degree may be raised. -/
theorem DegreeLE.mono (h : e.DegreeLE v d) (hd : d ≤ d') : e.DegreeLE v d' := by
  induction e with
  | num => exact fun hx => (h hx).trans hd
  | var => exact ⟨h.1, h.2.trans hd⟩
  | add _ _ ihl ihr | sub _ _ ihl ihr => exact ⟨ihl h.1, ihr h.2⟩
  | mul | pow =>
    obtain ⟨a, b, hl, hr, hle⟩ := h
    exact ⟨a, b, hl, hr, hle.trans hd⟩
  | _ => exact h.elim

/-- The formal degree is a bound of the degree. -/
theorem FormalDegree.degreeLE {n : ℕ} (h : e.FormalDegree v n) : e.DegreeLE v n := by
  induction h with
  | num => exact fun _ => le_rfl
  | var => exact ⟨rfl, le_rfl⟩
  | add _ _ ihl ihr | sub _ _ ihl ihr =>
    exact ⟨ihl.mono (mod_cast le_max_left _ _), ihr.mono (mod_cast le_max_right _ _)⟩
  | mul _ _ ihl ihr => exact ⟨_, _, ihl, ihr, by rw [Nat.cast_add]⟩
  | pow n _ ih => exact ⟨_, n, ih, rfl, by rw [nsmul_eq_mul, Nat.cast_mul]⟩

/-- A polynomial without variables is a numeral, of degree zero unless it stands for zero. -/
theorem DegreeLE.exists_isNumeral (h : e.DegreeLE v d) (hconst : e.isConstant = true) :
    ∃ x, e.IsNumeral x ∧ (x ≠ 0 → 0 ≤ d) := by
  induction e generalizing d with
  | num x => exact ⟨x, rfl, h⟩
  | add _ _ ihl ihr | sub _ _ ihl ihr =>
    rw [isConstant, Bool.and_eq_true] at hconst
    obtain ⟨a, hl, ha⟩ := ihl h.1 hconst.1
    obtain ⟨b, hr, hb⟩ := ihr h.2 hconst.2
    refine ⟨_, ⟨a, b, hl, hr, rfl⟩, fun hx => ?_⟩
    by_cases hzero : a = 0
    · exact hb fun hb => hx (by simp [hzero, hb])
    · exact ha hzero
  | mul _ _ ihl ihr =>
    rw [isConstant, Bool.and_eq_true] at hconst
    obtain ⟨m, n, hl, hr, hle⟩ := h
    obtain ⟨a, hl, ha⟩ := ihl hl hconst.1
    obtain ⟨b, hr, hb⟩ := ihr hr hconst.2
    refine ⟨_, ⟨a, b, hl, hr, rfl⟩, fun hx => ?_⟩
    exact (add_nonneg (ha (left_ne_zero_of_mul hx)) (hb (right_ne_zero_of_mul hx))).trans hle
  | pow _ _ ihl _ =>
    rw [isConstant, Bool.and_eq_true] at hconst
    obtain ⟨m, n, hl, hr, hle⟩ := h
    obtain ⟨a, hl, ha⟩ := ihl hl hconst.1
    refine ⟨_, ⟨a, n, hl, hr, rfl⟩, fun hx => le_trans ?_ hle⟩
    cases n with
    | zero => exact (zero_nsmul m).ge
    | succ k => exact nsmul_nonneg (ha (ne_zero_pow k.succ_ne_zero hx)) _
  | var | pending => cases hconst
  | _ => exact h.elim

/-- A sum or difference stays within a degree when both operands do. -/
theorem degreeLE_apply (op : Linear) :
    (op.apply l r).DegreeLE v d ↔ l.DegreeLE v d ∧ r.DegreeLE v d := by
  cases op <;> exact Iff.rfl

/-- The degree of a product does not depend on the order of its factors. -/
theorem DegreeLE.mul_comm (h : (mul l r).DegreeLE v d) : (mul r l).DegreeLE v d := by
  obtain ⟨a, b, hl, hr, hle⟩ := h
  exact ⟨b, a, hr, hl, add_comm b a ▸ hle⟩

variable [Scalar α]

/-- A numeral with nothing left to fold is a leaf. -/
theorem IsNumeral.eq_num (h : e.IsNumeral x) (hfolded : e.IsFolded) : e = num x := by
  have hinert := hfolded.isInert h.isConstant
  cases e with
  | num => exact congrArg num h
  | var | const | pending => exact h.elim
  | _ => cases hinert

/-- An integer is a polynomial of degree zero. -/
theorem degreeLE_ofInt (n : ℤ) (hd : 0 ≤ d) : (ofInt n : Expr α).DegreeLE v d :=
  fun _ => hd

/-- An operand seen as a product has the degree it had. -/
theorem DegreeLE.asFactors (h : e.DegreeLE v d) :
    (mul e.asFactors.1 e.asFactors.2).DegreeLE v d := by
  cases e with
  | mul l r => exact h
  | _ => exact ⟨d, 0, h, degreeLE_ofInt 1 le_rfl, (add_zero d).le⟩

variable [Scalar.Exact α]

/-- The leaf of an integer stands for it. -/
theorem isNumeral_ofInt (n : ℤ) : (ofInt n : Expr α).IsNumeral n :=
  Scalar.Exact.ofInt_eq n

/-- The leaf of zero stands for zero. -/
theorem isNumeral_zero : (ofInt 0 : Expr α).IsNumeral 0 :=
  mod_cast isNumeral_ofInt 0

/-- The leaf of one stands for one, as a natural number. -/
theorem isNumeral_one : (ofInt 1 : Expr α).IsNumeral (1 : ℕ) :=
  mod_cast isNumeral_ofInt 1

/-- The leaf of two stands for two, as a natural number. -/
theorem isNumeral_two : (ofInt 2 : Expr α).IsNumeral (2 : ℕ) :=
  mod_cast isNumeral_ofInt 2

/-- A numeral has the value it stands for, under all bindings. -/
theorem IsNumeral.evaluate (h : e.IsNumeral x) (b : Bindings α) : e.evaluate b = .ok x := by
  induction e generalizing x with
  | num => exact congrArg _ h
  | add _ _ ihl ihr | sub _ _ ihl ihr | mul _ _ ihl ihr | pow _ _ ihl ihr =>
    obtain ⟨y, z, hl, hr, rfl⟩ := h
    rw [Expr.evaluate, ihl hl, ihr hr]
    simp [bind, Except.bind, pure, Except.pure, Scalar.Exact.add_eq, Scalar.Exact.sub_eq,
      Scalar.Exact.mul_eq, Scalar.Exact.pow_natCast]
  | _ => exact h.elim

/-- A numeral is folded into the number that it stands for. -/
theorem IsNumeral.eq_of_folded? (h : e.IsNumeral x) (hr : e.folded? = some r) : r = num x := by
  have hvalue : e.value = .ok x := h.evaluate {}
  unfold folded? at hr
  rw [hvalue] at hr
  split at hr
  · cases hr
  · obtain rfl := Option.some.inj hr
    split
    next hzero => rw [ofInt, Scalar.Exact.ofInt_eq, Int.cast_zero, Scalar.isZero_iff.1 hzero]
    · rfl

/-- Trees that match stand for the same number. -/
theorem IsNumeral.of_matches {e' : Expr α} (hsame : e.Matches e') (h : e.IsNumeral x) :
    e'.IsNumeral x := by
  induction hsame generalizing x with
  | num hsame => exact ((Scalar.Exact.same_iff _ _).1 hsame).symm.trans h
  | add _ _ ihl ihr | sub _ _ ihl ihr | mul _ _ ihl ihr | pow _ _ ihl ihr =>
    obtain ⟨a, b, hl, hr, rfl⟩ := h
    exact ⟨a, b, ihl hl, ihr hr, rfl⟩
  | addSwap _ _ ihl ihr =>
    obtain ⟨a, b, hl, hr, rfl⟩ := h
    exact ⟨b, a, ihr hr, ihl hl, add_comm b a⟩
  | mulSwap _ _ ihl ihr =>
    obtain ⟨a, b, hl, hr, rfl⟩ := h
    exact ⟨b, a, ihr hr, ihl hl, mul_comm b a⟩
  | _ => exact h.elim

/-! A rule keeps the number that a node stands for. Operands with nothing left to fold are leaves,
so no rule finds factors or powers in them. -/

section

variable {a b : α} {w : Rewriting α}

/-- The rules for sums of numbers leave a numeral for their sum. -/
theorem isNumeral_rule_add (hrule : Rule (add (num a) (num b)) w) :
    w.outcome.IsNumeral (a + b) := by
  cases hrule with
  | keep => exact ⟨a, b, rfl, rfl, rfl⟩
  | addZeroLeft hzero => exact right_eq_add.2 (Scalar.isZero_iff.1 hzero)
  | addZeroRight hzero => exact left_eq_add.2 (Scalar.isZero_iff.1 hzero)
  | addSame hsame =>
    have hab : a = b := (Scalar.Exact.same_iff a b).1 hsame
    exact ⟨2, a, isNumeral_two, rfl, by rw [← hab, two_mul]⟩
  | addShared hproduct => cases hproduct

/-- The rules for differences of numbers leave a numeral for their difference. -/
theorem isNumeral_rule_sub (hrule : Rule (sub (num a) (num b)) w) :
    w.outcome.IsNumeral (a - b) := by
  cases hrule with
  | keep => exact ⟨a, b, rfl, rfl, rfl⟩
  | subZeroLeft hzero =>
    have hzero : a = 0 := Scalar.isZero_iff.1 hzero
    exact ⟨-1, b, mod_cast isNumeral_ofInt (-1), rfl, by rw [hzero, neg_one_mul, zero_sub]⟩
  | subZeroRight hzero => exact (sub_eq_self.2 (Scalar.isZero_iff.1 hzero)).symm
  | subSame hsame =>
    have hab : a = b := (Scalar.Exact.same_iff a b).1 hsame
    rw [hab, sub_self]
    exact isNumeral_zero
  | subShared hproduct => cases hproduct

/-- The rules for products of numbers leave a numeral for their product. -/
theorem isNumeral_rule_mul (hrule : Rule (mul (num a) (num b)) w) :
    w.outcome.IsNumeral (a * b) := by
  cases hrule with
  | keep => exact ⟨a, b, rfl, rfl, rfl⟩
  | mulZero hzero =>
    have hzero : a * b = 0 := by
      rcases Bool.or_eq_true_iff.1 hzero with h | h
      · rw [Scalar.isZero_iff.1 h, zero_mul]
      · rw [Scalar.isZero_iff.1 h, mul_zero]
    rw [hzero]
    exact isNumeral_zero
  | mulOneLeft hone => exact (by rw [Scalar.isOne_iff.1 hone, one_mul] : b = a * b)
  | mulOneRight hone => exact (by rw [Scalar.isOne_iff.1 hone, mul_one] : a = a * b)
  | mulSame _ _ hsame =>
    have hab : a = b := (Scalar.Exact.same_iff a b).1 hsame
    exact ⟨a, 2, rfl, isNumeral_two, by rw [← hab, sq]⟩
  | mulPowers hpower => cases hpower

/-- The rules for powers of numbers leave a numeral for the power. -/
theorem isNumeral_rule_pow [CharZero α] {n : ℕ} (hrule : Rule (pow (num a) (num (n : α))) w) :
    w.outcome.IsNumeral (a ^ n) := by
  cases hrule with
  | keep => exact ⟨a, n, rfl, rfl, rfl⟩
  | powToZero hzero =>
    rw [Nat.cast_eq_zero.1 (Scalar.isZero_iff.1 hzero : (n : α) = 0), pow_zero]
    exact mod_cast isNumeral_one
  | powOfZero hexponent hzero =>
    have hn : n ≠ 0 := fun hn => hexponent (Scalar.isZero_iff.2 (Nat.cast_eq_zero.2 hn))
    rw [(Scalar.isZero_iff.1 hzero : a = 0), zero_pow hn]
    exact isNumeral_zero
  | powOfOne hone =>
    rw [(Scalar.isOne_iff.1 hone : a = 1), one_pow]
    exact mod_cast isNumeral_one
  | powToOne hone =>
    rw [Nat.cast_eq_one.1 (Scalar.isOne_iff.1 hone : (n : α) = 1), pow_one]
    exact (rfl : (num a).IsNumeral a)

end

/-- A rule leaves of a numeral, its operands folded, a numeral for the same number. -/
theorem IsNumeral.rule [CharZero α] {w : Rewriting α} (hrule : Rule e w) (h : e.IsNumeral x)
    (hops : e.Operands IsFolded) : w.outcome.IsNumeral x := by
  cases e with
  | num =>
    cases hrule
    exact h
  | add l r =>
    obtain ⟨a, b, hl, hr, rfl⟩ := h
    obtain rfl := hl.eq_num hops.1
    obtain rfl := hr.eq_num hops.2
    exact isNumeral_rule_add hrule
  | sub l r =>
    obtain ⟨a, b, hl, hr, rfl⟩ := h
    obtain rfl := hl.eq_num hops.1
    obtain rfl := hr.eq_num hops.2
    exact isNumeral_rule_sub hrule
  | mul l r =>
    obtain ⟨a, b, hl, hr, rfl⟩ := h
    obtain rfl := hl.eq_num hops.1
    obtain rfl := hr.eq_num hops.2
    exact isNumeral_rule_mul hrule
  | pow l r =>
    obtain ⟨a, n, hl, hr, rfl⟩ := h
    obtain rfl := hl.eq_num hops.1
    obtain rfl := hr.eq_num hops.2
    exact isNumeral_rule_pow hrule
  | _ => exact h.elim

/-! ## Degrees -/

/-- The leaf of zero is a polynomial of every degree. -/
theorem degreeLE_ofInt_zero : (ofInt 0 : Expr α).DegreeLE v d :=
  fun h => absurd (isNumeral_zero (α := α)) h

/-- Trees that are the same have the same degree. -/
theorem DegreeLE.of_same {e' : Expr α} (hsame : e.same e' = true) (h : e.DegreeLE v d) :
    e'.DegreeLE v d := by
  replace hsame := matches_of_same hsame
  induction hsame generalizing d with
  | num hsame => exact (Scalar.Exact.same_iff _ _).1 hsame ▸ h
  | var => exact h
  | add _ _ ihl ihr | sub _ _ ihl ihr => exact ⟨ihl h.1, ihr h.2⟩
  | addSwap _ _ ihl ihr => exact ⟨ihr h.2, ihl h.1⟩
  | mul _ _ ihl ihr =>
    obtain ⟨a, b, hl, hr, hle⟩ := h
    exact ⟨a, b, ihl hl, ihr hr, hle⟩
  | mulSwap _ _ ihl ihr =>
    obtain ⟨a, b, hl, hr, hle⟩ := h
    exact ⟨b, a, ihr hr, ihl hl, add_comm b a ▸ hle⟩
  | @pow l l' r r' _ hexponent ihl _ =>
    obtain ⟨a, n, hl, hr, hle⟩ := h
    exact ⟨a, n, ihl hl, hr.of_matches hexponent, hle⟩
  | _ => exact h.elim

/-- An operand seen as a power has the degree it had. -/
theorem DegreeLE.asPower (h : e.DegreeLE v d) : (pow e.asPower.1 e.asPower.2).DegreeLE v d := by
  cases e with
  | pow l r => exact h
  | _ => exact ⟨d, 1, h, isNumeral_one, (one_nsmul d).le⟩

/-- A factor that is the same as one of another product has the lower of the two degrees, and what
remains of the two products may then have the higher one. -/
theorem DegreeLE.distribute {f g a b : Expr α} (op : Linear) (hsame : f.same g = true)
    (hl : (mul f a).DegreeLE v d) (hr : (mul g b).DegreeLE v d) :
    (mul (op.apply a b) f).DegreeLE v d := by
  obtain ⟨m, n, hf, ha, hle⟩ := hl
  obtain ⟨m', n', hg, hb, hle'⟩ := hr
  have hrest := (degreeLE_apply op).2 ⟨ha.mono (le_max_left n n'), hb.mono (le_max_right n n')⟩
  have hboth : max n n' + min m m' ≤ d := by
    rcases le_total n n' with h | h
    · rw [max_eq_right h, add_comm]
      exact (add_le_add_left (min_le_right m m') n').trans hle'
    · rw [max_eq_left h, add_comm]
      exact (add_le_add_left (min_le_left m m') n).trans hle
  rcases le_total m m' with h | h
  · exact ⟨_, m, hrest, hf, min_eq_left h ▸ hboth⟩
  · exact ⟨_, m', hrest, hg.of_same (same_comm f g ▸ hsame), min_eq_right h ▸ hboth⟩

/-- Taking out a shared factor does not raise the degree. -/
theorem DegreeLE.factored (op : Linear) {f a b : Expr α}
    (hs : shared? l.asFactors r.asFactors = some (f, a, b)) (hl : l.DegreeLE v d)
    (hr : r.DegreeLE v d) : (mul (op.apply a b) f).DegreeLE v d := by
  obtain ⟨g, hfactors, hfactors', hsame⟩ := exists_of_shared? hs
  have hf : (mul f a).DegreeLE v d := by
    have hl := hl.asFactors
    rcases hfactors with h | h <;> rw [h] at hl
    · exact hl
    · exact hl.mul_comm
  have hg : (mul g b).DegreeLE v d := by
    have hr := hr.asFactors
    rcases hfactors' with h | h <;> rw [h] at hr
    · exact hr
    · exact hr.mul_comm
  exact hf.distribute op hsame hg

/-- Putting powers of one base together does not raise the degree. -/
theorem DegreeLE.joined (hsame : l.asPower.1.same r.asPower.1 = true) (h : (mul l r).DegreeLE v d) :
    (pow l.asPower.1 (add l.asPower.2 r.asPower.2)).DegreeLE v d := by
  obtain ⟨a, b, hl, hr, hle⟩ := h
  obtain ⟨p, m, hbase, hm, hp⟩ := hl.asPower
  obtain ⟨q, n, hbase', hn, hq⟩ := hr.asPower
  have hsum : (add l.asPower.2 r.asPower.2).IsNumeral ((m + n : ℕ) : α) :=
    ⟨m, n, hm, hn, (Nat.cast_add m n).symm⟩
  rcases le_total p q with h | h
  · refine ⟨p, m + n, hbase, hsum, ?_⟩
    rw [add_nsmul]
    exact (add_le_add hp ((nsmul_le_nsmul_right h n).trans hq)).trans hle
  · refine ⟨q, m + n, hbase'.of_same (same_comm l.asPower.1 r.asPower.1 ▸ hsame), hsum, ?_⟩
    rw [add_nsmul]
    exact (add_le_add ((nsmul_le_nsmul_right h m).trans hp) hq).trans hle

/-- A rule never raises the degree of the node. -/
theorem DegreeLE.rule [CharZero α] {w : Rewriting α} (hrule : Rule e w) (h : e.DegreeLE v d) :
    w.outcome.DegreeLE v d := by
  cases hrule with
  | keep => exact h
  | addZeroLeft => exact h.2
  | addZeroRight | subZeroRight => exact h.1
  | addSame => exact ⟨0, d, degreeLE_ofInt 2 le_rfl, h.1, (zero_add d).le⟩
  | addShared _ hs => exact h.1.factored .sum hs h.2
  | subZeroLeft => exact ⟨0, d, degreeLE_ofInt (-1) le_rfl, h.2, (zero_add d).le⟩
  | subShared _ hs => exact h.1.factored .difference hs h.2
  | subSame | mulZero | powOfZero => exact degreeLE_ofInt_zero
  | mulOneLeft hone =>
    -- A factor of one has a degree that is not negative, so the other one alone has no higher
    -- degree.
    obtain ⟨a, b, hl, hr, hle⟩ := h
    obtain rfl := eq_num_one_of_isOne hone
    exact hr.mono ((le_add_of_nonneg_left (hl one_ne_zero)).trans hle)
  | mulOneRight hone =>
    obtain ⟨a, b, hl, hr, hle⟩ := h
    obtain rfl := eq_num_one_of_isOne hone
    exact hl.mono ((le_add_of_nonneg_right (hr one_ne_zero)).trans hle)
  | @mulSame l r _ _ hsame =>
    obtain ⟨a, b, hl, hr, hle⟩ := h
    rcases le_total a b with hab | hab
    · exact ⟨a, 2, hl, isNumeral_two, two_nsmul a ▸ (add_le_add_right hab a).trans hle⟩
    · exact ⟨b, 2, hr.of_same (same_comm l r ▸ hsame), isNumeral_two,
        two_nsmul b ▸ (add_le_add_left hab b).trans hle⟩
  | mulPowers _ hsame => exact h.joined hsame
  | powToZero hzero =>
    obtain ⟨a, n, hl, hr, hle⟩ := h
    obtain rfl := eq_num_zero_of_isZero hzero
    have hn : n = 0 := Nat.cast_eq_zero.1 hr.symm
    exact degreeLE_ofInt 1 (by rwa [hn, zero_nsmul] at hle)
  | powOfOne hone =>
    obtain ⟨a, n, hl, hr, hle⟩ := h
    obtain rfl := eq_num_one_of_isOne hone
    exact degreeLE_ofInt 1 ((nsmul_nonneg (hl one_ne_zero) n).trans hle)
  | powToOne hone =>
    obtain ⟨a, n, hl, hr, hle⟩ := h
    obtain rfl := eq_num_one_of_isOne hone
    have hn : n = 1 := Nat.cast_eq_one.1 hr.symm
    exact hl.mono (by rwa [hn, one_nsmul] at hle)
  | divZero | divOne | divSame | divPowers | logSame => exact h.elim

/-! ## Simplification -/

/-- The second tree stands for the same number as the first and is a polynomial of no higher degree,
if the first is a numeral or a polynomial at all. -/
structure KeepsDegree (v : Char) (e r : Expr α) : Prop where
  numeral : ∀ x, e.IsNumeral x → r.IsNumeral x
  degree : ∀ d, e.DegreeLE v d → r.DegreeLE v d

/-- Every step of simplification may keep numbers and degrees. -/
theorem allows_keepsDegree [CharZero α] (v : Char) : Allows (α := α) (KeepsDegree v) where
  refl _ := ⟨fun _ => id, fun _ => id⟩
  trans h h' := ⟨fun x hx => h'.numeral x (h.numeral x hx), fun d hd => h'.degree d (h.degree d hd)⟩
  add hl hr := {
    numeral := fun _ ⟨a, b, ha, hb, hx⟩ => ⟨a, b, hl.numeral a ha, hr.numeral b hb, hx⟩
    degree := fun d hd => ⟨hl.degree d hd.1, hr.degree d hd.2⟩ }
  sub hl hr := {
    numeral := fun _ ⟨a, b, ha, hb, hx⟩ => ⟨a, b, hl.numeral a ha, hr.numeral b hb, hx⟩
    degree := fun d hd => ⟨hl.degree d hd.1, hr.degree d hd.2⟩ }
  mul hl hr := {
    numeral := fun _ ⟨a, b, ha, hb, hx⟩ => ⟨a, b, hl.numeral a ha, hr.numeral b hb, hx⟩
    degree := fun _ ⟨a, b, ha, hb, hle⟩ => ⟨a, b, hl.degree a ha, hr.degree b hb, hle⟩ }
  pow hl hr := {
    numeral := fun _ ⟨a, n, ha, hn, hx⟩ => ⟨a, n, hl.numeral a ha, hr.numeral n hn, hx⟩
    degree := fun _ ⟨a, n, ha, hn, hle⟩ => ⟨a, n, hl.degree a ha, hr.numeral n hn, hle⟩ }
  div _ _ := ⟨fun _ => False.elim, fun _ => False.elim⟩
  log _ _ := ⟨fun _ => False.elim, fun _ => False.elim⟩
  sin _ := ⟨fun _ => False.elim, fun _ => False.elim⟩
  cos _ := ⟨fun _ => False.elim, fun _ => False.elim⟩
  tan _ := ⟨fun _ => False.elim, fun _ => False.elim⟩
  folded {e r} hr := {
    numeral := fun x hx => hx.eq_of_folded? hr ▸ rfl
    degree := fun d hd => by
      obtain ⟨x, hx, hle⟩ := hd.exists_isNumeral (isConstant_of_folded? hr)
      exact hx.eq_of_folded? hr ▸ hle }
  rule hops := ⟨fun _ hx => hx.rule (rule_rewrite _) hops, fun _ hd => hd.rule (rule_rewrite _)⟩

/-- Simplification never raises the degree of a polynomial. -/
theorem DegreeLE.simplify [CharZero α] (h : e.DegreeLE v d) : e.simplify.DegreeLE v d :=
  (relates_simplify (allows_keepsDegree v) e).degree d h

/-! ## Derivatives -/

/-- The number zero is zero. -/
theorem isZero_num_zero : (num 0 : Expr α).isZero = true :=
  Scalar.isZero_iff.2 rfl

variable [CharZero α]

/-- The exponents in a simplified polynomial are natural numbers other than zero. -/
theorem IsSettled.exists_exponent {n : ℕ} (h : (pow l r).IsSettled) (hfolded : r.IsFolded)
    (hr : r.IsNumeral (n : α)) : ∃ k : ℕ, n = k + 1 ∧ r = num (n : α) := by
  obtain rfl := hr.eq_num hfolded
  refine ⟨n - 1, (Nat.sub_add_cancel (Nat.one_le_iff_ne_zero.2 ?_)).symm, rfl⟩
  rintro rfl
  exact h.not_isReducible (.inr (.inr (.inr (.inl (Scalar.isZero_iff.2 Nat.cast_zero)))))

/-- Differentiation lowers the degree of a simplified polynomial. -/
theorem DegreeLE.exists_derivative (h : e.DegreeLE v d) (hsettled : e.Reached IsSettled) :
    ∃ d', d' + 1 ≤ d ∧ (e.derivative v).DegreeLE v d' := by
  induction e generalizing d with
  | num => exact ⟨⊥, bot_le, degreeLE_ofInt_zero⟩
  | var w =>
    obtain ⟨rfl, hle⟩ := h
    refine ⟨0, hle, ?_⟩
    rw [Expr.derivative, if_pos rfl]
    exact degreeLE_ofInt 1 le_rfl
  | add l r ihl ihr | sub l r ihl ihr =>
    obtain ⟨a, ha, hl⟩ := ihl h.1 hsettled.2.1
    obtain ⟨b, hb, hr⟩ := ihr h.2 hsettled.2.2
    refine ⟨max a b, ?_, hl.mono (le_max_left a b), hr.mono (le_max_right a b)⟩
    rw [← max_add_add_right]
    exact max_le ha hb
  | mul l r ihl ihr =>
    obtain ⟨m, n, hl, hr, hle⟩ := h
    obtain ⟨a, ha, hl'⟩ := ihl hl hsettled.2.1
    obtain ⟨b, hb, hr'⟩ := ihr hr hsettled.2.2
    refine ⟨max (a + n) (m + b), ?_, ⟨a, n, hl', hr, le_max_left _ _⟩, m, b, hl, hr',
      le_max_right _ _⟩
    rw [← max_add_add_right, add_right_comm a, add_assoc m]
    exact max_le ((add_le_add_left ha n).trans hle) ((add_le_add_right hb m).trans hle)
  | pow l r ihl =>
    -- The exponent goes down by one, and the derivative of the base takes the place of the factor
    -- that is lost.
    obtain ⟨m, n, hl, hr, hle⟩ := h
    obtain ⟨a, ha, hl'⟩ := ihl hl hsettled.2.1
    obtain ⟨k, rfl, rfl⟩ := hsettled.1.exists_exponent (reached_iff.1 hsettled.2.2).1.folded hr
    have hfactor : (mul (num ((k + 1 : ℕ) : α)) (l.derivative v)).DegreeLE v a :=
      ⟨0, a, fun _ => le_rfl, hl', (zero_add a).le⟩
    have hexponent : (sub (num ((k + 1 : ℕ) : α)) (ofInt 1)).IsNumeral (k : α) :=
      ⟨_, (1 : ℕ), rfl, isNumeral_one, by push_cast; ring⟩
    refine ⟨a + k • m, ?_, a, k • m, hfactor, ⟨m, k, hl, hexponent, le_rfl⟩, le_rfl⟩
    calc a + k • m + 1 = k • m + (a + 1) := by rw [add_comm a, add_assoc]
      _ ≤ k • m + m := add_le_add_right ha _
      _ = (k + 1) • m := (succ_nsmul m k).symm
      _ ≤ d := hle
  | _ => exact h.elim

/-- A simplified polynomial of a degree below all numbers is the number zero. -/
theorem DegreeLE.eq_zero (h : e.DegreeLE v ⊥) (hsettled : e.Reached IsSettled) : e = num 0 := by
  have hnode := (reached_iff.1 hsettled).1.not_isReducible
  induction e with
  | num x =>
    by_contra hx
    exact absurd (h fun hzero => hx (congrArg num hzero)) (by simp)
  | var => exact absurd h.2 (by simp)
  | add l r ihl | sub l r ihl =>
    obtain rfl := ihl h.1 hsettled.2.1 (reached_iff.1 hsettled.2.1).1.not_isReducible
    exact absurd (.inr (.inl isZero_num_zero)) hnode
  | mul l r ihl ihr =>
    obtain ⟨a, b, hl, hr, hle⟩ := h
    rcases WithBot.add_eq_bot.1 (le_bot_iff.1 hle) with rfl | rfl
    · obtain rfl := ihl hl hsettled.2.1 (reached_iff.1 hsettled.2.1).1.not_isReducible
      exact absurd (.inr (.inl isZero_num_zero)) hnode
    · obtain rfl := ihr hr hsettled.2.2 (reached_iff.1 hsettled.2.2).1.not_isReducible
      exact absurd (.inr (.inr (.inl isZero_num_zero))) hnode
  | pow l r ihl =>
    obtain ⟨a, n, hl, hr, hle⟩ := h
    cases a with
    | bot =>
      obtain rfl := ihl hl hsettled.2.1 (reached_iff.1 hsettled.2.1).1.not_isReducible
      exact absurd (.inr (.inl isZero_num_zero)) hnode
    | coe a =>
      rw [← WithBot.coe_nsmul] at hle
      exact absurd hle (WithBot.not_coe_le_bot _)
  | _ => exact h.elim

/-! ## Derivatives of some order -/

/-- What is differentiated again is a simplified tree. -/
theorem reached_isSettled_nthDerivative (v : Char) (n : ℕ) (e : Expr α) :
    (e.nthDerivative v n).Reached IsSettled := by
  cases n with
  | zero => exact reached_isSettled_simplify e
  | succ n => exact reached_isSettled_simplify _

/-- Every further differentiation lowers the degree of a polynomial by one. -/
theorem DegreeLE.exists_nthDerivative (h : e.DegreeLE v d) (n : ℕ) :
    ∃ d', d' + n ≤ d ∧ (e.nthDerivative v n).DegreeLE v d' := by
  induction n with
  | zero => exact ⟨d, (add_zero d).le, h.simplify⟩
  | succ n ih =>
    obtain ⟨a, hle, ha⟩ := ih
    obtain ⟨b, hb, hderivative⟩ := ha.exists_derivative (reached_isSettled_nthDerivative v n e)
    refine ⟨b, ?_, hderivative.simplify⟩
    calc
      b + ((n + 1 : ℕ) : WithBot ℕ) = b + 1 + n := by
        rw [Nat.cast_succ, add_assoc, add_comm (n : WithBot ℕ)]
      _ ≤ a + n := add_le_add_left hb _
      _ ≤ d := hle

/-- Over exact numbers, differentiating a polynomial more often than its degree says leaves the
number zero. -/
theorem nthDerivative_eq_zero {p : Expr α} {d n : ℕ} (hp : p.FormalDegree v d) (hn : d < n) :
    p.nthDerivative v n = num 0 := by
  obtain ⟨a, hle, ha⟩ := hp.degreeLE.exists_nthDerivative n
  have hbot : a = ⊥ := by
    cases a with
    | bot => rfl
    | coe k =>
      have hle : k + n ≤ d := WithBot.coe_le_coe.1 hle
      omega
  exact (hbot ▸ ha).eq_zero (reached_isSettled_nthDerivative v n p)

/-- The cubic `x^2 * x - 3 (x + 1)^2` is zero after four derivatives. -/
theorem nthDerivative_eq_zero_cubic :
    FormalDegree 'x' (sub (mul (pow (var 'x') (num (2 : ℕ))) (var 'x'))
        (mul (num 3) (pow (add (var 'x') (num 1)) (num (2 : ℕ)))) : Expr ℝ) 3 ∧
      (sub (mul (pow (var 'x') (num (2 : ℕ))) (var 'x'))
        (mul (num 3) (pow (add (var 'x') (num 1)) (num (2 : ℕ)))) : Expr ℝ).nthDerivative 'x' 4 =
        num 0 := by
  have hdegree : FormalDegree 'x' (sub (mul (pow (var 'x') (num (2 : ℕ))) (var 'x'))
      (mul (num 3) (pow (add (var 'x') (num 1)) (num (2 : ℕ)))) : Expr ℝ) 3 :=
    .sub (.mul (.pow 2 .var) .var) (.mul (.num 3) (.pow 2 (.add .var (.num 1))))
  exact ⟨hdegree, nthDerivative_eq_zero hdegree (by decide)⟩

end Expr

end Formula
