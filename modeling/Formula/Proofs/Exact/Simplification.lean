import Formula.Proofs.Exact.Value
import Formula.Proofs.Simplification.Steps

/-!
# Simplification keeps values

Over exact numbers simplification changes neither where a tree is defined nor, there, what its value
is. `Keeps` relates two trees of which the second is defined and equal in value wherever the first
is; each step of simplification is allowed by it (`allows_keeps`), so simplification as a whole is
(`evaluate_simplify`). Rules that drop a node or join powers are sound only because of what the
dropped node demanded of its operands: a base that is not zero, an exponent that is an integer.
-/

namespace Formula.Expr

/-! ## Sameness and values -/

/-- Bases that match tell the same kind of logarithm. -/
theorem Matches.baseKind_eq {a b : Expr ℝ} (h : a.Matches b) : a.baseKind = b.baseKind := by
  cases h with
  | num h => rw [(Scalar.Exact.same_iff _ _).1 h]
  | _ => rfl

/-- Trees that are the same up to swapped operands have the same value. -/
theorem valueAt_eq_of_same (p : Point) {a b : Expr ℝ} (h : a.same b = true) (hm : a.MarkerFree)
    (ha : a.KindsAgree) (hb : b.KindsAgree) : a.valueAt p = b.valueAt p := by
  replace h := matches_of_same h
  induction h with
  | num h => exact (Scalar.Exact.same_iff _ _).1 h
  | var | const => rfl
  | add _ _ ihl ihr | sub _ _ ihl ihr | mul _ _ ihl ihr | div _ _ ihl ihr | pow _ _ ihl ihr =>
    rw [valueAt, valueAt, ihl hm.2.1 ha.2.1 hb.2.1, ihr hm.2.2 ha.2.2 hb.2.2]
  | addSwap _ _ ihl ihr =>
    rw [valueAt, valueAt, ihl hm.2.1 ha.2.1 hb.2.2, ihr hm.2.2 ha.2.2 hb.2.1, add_comm]
  | mulSwap _ _ ihl ihr =>
    rw [valueAt, valueAt, ihl hm.2.1 ha.2.1 hb.2.2, ihr hm.2.2 ha.2.2 hb.2.1, mul_comm]
  | log kind kind' hbase _ ihl ihr =>
    have hkind : kind = kind' := by rw [ha.1, hb.1, hbase.baseKind_eq]
    simp only [valueAt, ihl hm.2.1 ha.2.1 hb.2.1, ihr hm.2.2 ha.2.2 hb.2.2, hkind]
  | pending => cases hm.1
  | sin _ ih | cos _ ih | tan _ ih => rw [valueAt, valueAt, ih hm.2 ha.2 hb.2]

/-! ## Meaningful trees -/

/-- A node that evaluation can make sense of at a point, as far as the node itself is concerned. -/
structure MeaningfulAt (p : Point) (s : Expr ℝ) : Prop where
  notPending : s.isPending = false
  isEuler : s.IsEuler
  kindAgrees : s.KindAgrees
  definedAt : s.DefinedAt p

/-- A tree without pending derivatives, with no constant but Euler's number and logarithms of the
right kind, that is defined at a point. -/
def Meaningful (p : Point) (e : Expr ℝ) : Prop :=
  e.Everywhere (MeaningfulAt p)

section

variable {p : Point} {l r a : Expr ℝ}

/-- The four conditions together make a tree meaningful. -/
theorem meaningful_of (hm : a.MarkerFree) (hc : a.EulerOnly) (hk : a.KindsAgree)
    (hd : a.Defined p) :
    a.Meaningful p :=
  (((hm.and hc).and hk).and hd).imp fun _ h => ⟨h.1.1.1, h.1.1.2, h.1.2, h.2⟩

/-- A meaningful tree has no pending derivatives. -/
theorem Meaningful.markerFree (h : a.Meaningful p) : a.MarkerFree :=
  h.imp fun _ h => h.notPending

/-- A meaningful tree has no constant but Euler's number. -/
theorem Meaningful.eulerOnly (h : a.Meaningful p) : a.EulerOnly :=
  h.imp fun _ h => h.isEuler

/-- The logarithms of a meaningful tree have the kinds of their bases. -/
theorem Meaningful.kindsAgree (h : a.Meaningful p) : a.KindsAgree :=
  h.imp fun _ h => h.kindAgrees

/-- A meaningful tree is defined. -/
theorem Meaningful.defined (h : a.Meaningful p) : a.Defined p :=
  h.imp fun _ h => h.definedAt

@[simp] theorem meaningful_num (x : ℝ) : (num x).Meaningful p :=
  ⟨rfl, trivial, trivial, trivial⟩

@[simp] theorem meaningful_ofInt (n : Int) : (ofInt n).Meaningful p :=
  meaningful_num _

/-- A sum is meaningful when both operands are. -/
@[simp] theorem meaningful_add : (add l r).Meaningful p ↔ l.Meaningful p ∧ r.Meaningful p :=
  ⟨fun h => h.2, fun h => ⟨⟨rfl, trivial, trivial, trivial⟩, h⟩⟩

/-- A difference is meaningful when both operands are. -/
@[simp] theorem meaningful_sub : (sub l r).Meaningful p ↔ l.Meaningful p ∧ r.Meaningful p :=
  ⟨fun h => h.2, fun h => ⟨⟨rfl, trivial, trivial, trivial⟩, h⟩⟩

/-- A product is meaningful when both factors are. -/
@[simp] theorem meaningful_mul : (mul l r).Meaningful p ↔ l.Meaningful p ∧ r.Meaningful p :=
  ⟨fun h => h.2, fun h => ⟨⟨rfl, trivial, trivial, trivial⟩, h⟩⟩

/-- A quotient is meaningful when both operands are and the divisor is not zero. -/
@[simp] theorem meaningful_div :
    (div l r).Meaningful p ↔ l.Meaningful p ∧ r.Meaningful p ∧ r.valueAt p ≠ 0 :=
  ⟨fun h => ⟨h.2.1, h.2.2, h.1.definedAt⟩, fun h => ⟨⟨rfl, trivial, trivial, h.2.2⟩, h.1, h.2.1⟩⟩

/-- A power is meaningful when both operands are and the real power is defined. -/
@[simp] theorem meaningful_pow :
    (pow l r).Meaningful p ↔ l.Meaningful p ∧ r.Meaningful p ∧
      PowDefined (l.valueAt p) (r.valueAt p) :=
  ⟨fun h => ⟨h.2.1, h.2.2, h.1.definedAt⟩, fun h => ⟨⟨rfl, trivial, trivial, h.2.2⟩, h.1, h.2.1⟩⟩

/-- A logarithm is meaningful when both operands are, its kind is that of the base, the base is
positive and not one, and the argument is positive. -/
theorem meaningful_log {kind : LogBase} :
    (log l r kind).Meaningful p ↔ l.Meaningful p ∧ r.Meaningful p ∧ kind = l.baseKind ∧
      0 < l.valueAt p ∧ l.valueAt p ≠ 1 ∧ 0 < r.valueAt p :=
  ⟨fun h => ⟨h.2.1, h.2.2, h.1.kindAgrees, h.1.definedAt⟩,
    fun h => ⟨⟨rfl, trivial, h.2.2.1, h.2.2.2⟩, h.1, h.2.1⟩⟩

/-- A sine is meaningful when its argument is. -/
theorem meaningful_sin : (sin a).Meaningful p ↔ a.Meaningful p :=
  ⟨fun h => h.2, fun h => ⟨⟨rfl, trivial, trivial, trivial⟩, h⟩⟩

/-- A cosine is meaningful when its argument is. -/
theorem meaningful_cos : (cos a).Meaningful p ↔ a.Meaningful p :=
  ⟨fun h => h.2, fun h => ⟨⟨rfl, trivial, trivial, trivial⟩, h⟩⟩

/-- A tangent is meaningful when its argument is and has a cosine other than zero. -/
theorem meaningful_tan : (tan a).Meaningful p ↔ a.Meaningful p ∧ Real.cos (a.valueAt p) ≠ 0 :=
  ⟨fun h => ⟨h.2, h.1.definedAt⟩, fun h => ⟨⟨rfl, trivial, trivial, h.2⟩, h.1⟩⟩

end

/-! ## Steps that keep the value -/

/-- Wherever the first tree is meaningful the second is too, with the same value. -/
def Keeps (p : Point) (e r : Expr ℝ) : Prop :=
  e.Meaningful p → r.Meaningful p ∧ r.valueAt p = e.valueAt p

/-- The value of a tree without variables is the same at all points. -/
theorem valueAt_eq_of_isConstant (p q : Point) {e : Expr ℝ} (h : e.isConstant = true)
    (he : e.EulerOnly) :
    e.valueAt p = e.valueAt q := by
  induction e with
  | num => rfl
  | const id => simp [valueAt, show id = 'e' from he]
  | var | pending => simp [isConstant] at h
  | add l r ihl ihr | sub l r ihl ihr | mul l r ihl ihr | div l r ihl ihr | pow l r ihl ihr
  | log l r _ ihl ihr =>
    rw [isConstant, Bool.and_eq_true] at h
    simp only [valueAt, ihl h.1 he.2.1, ihr h.2 he.2.2]
  | sin a ih | cos a ih | tan a ih => rw [valueAt, valueAt, ih h he.2]

/-- Folding a constant keeps its value. -/
theorem keeps_folded (p : Point) {e r : Expr ℝ} (h : e.folded? = some r) : Keeps p e r := by
  intro he
  have hvalue : e.value = .ok (e.valueAt (Bindings.point {})) :=
    evaluate_eq_valueAt {} he.markerFree
  unfold folded? at h
  split at h
  · simp at h
  next hconstant =>
    simp only [Bool.or_eq_true, Bool.not_eq_true', not_or, Bool.not_eq_false] at hconstant
    have hpoint := valueAt_eq_of_isConstant (Bindings.point {}) p hconstant.2 he.eulerOnly
    rw [hvalue] at h
    obtain rfl := Option.some.inj h
    rw [hpoint]
    by_cases hzero : e.valueAt p = 0
    · simp [hzero]
    · simp [hzero, valueAt]

/-! ### Factors and powers -/

section

variable {p : Point}

/-- The factors of a meaningful operand are meaningful. -/
theorem meaningful_asFactors {e : Expr ℝ} (h : e.Meaningful p) :
    e.asFactors.1.Meaningful p ∧ e.asFactors.2.Meaningful p := by
  cases e with
  | mul l r => exact meaningful_mul.1 h
  | _ => exact ⟨h, meaningful_ofInt 1⟩

/-- An operand has the value of its factors multiplied. -/
theorem valueAt_asFactors (e : Expr ℝ) :
    e.valueAt p = e.asFactors.1.valueAt p * e.asFactors.2.valueAt p := by
  cases e with
  | mul l r => rfl
  | _ => simp [asFactors]

/-- The first power is defined for every base. -/
theorem powDefined_one (x : ℝ) : PowDefined x 1 := by
  rcases lt_trichotomy x 0 with hx | hx | hx
  · exact .inr (.inr ⟨hx, 1, by norm_num⟩)
  · exact .inr (.inl ⟨hx, one_pos⟩)
  · exact .inl hx

/-- The square is defined for every base. -/
theorem powDefined_two (x : ℝ) : PowDefined x 2 := by
  rcases lt_trichotomy x 0 with hx | hx | hx
  · exact .inr (.inr ⟨hx, 2, by norm_num⟩)
  · exact .inr (.inl ⟨hx, two_pos⟩)
  · exact .inl hx

/-- Base and exponent of a meaningful operand are meaningful, and the power is defined. -/
theorem meaningful_asPower {e : Expr ℝ} (h : e.Meaningful p) :
    e.asPower.1.Meaningful p ∧ e.asPower.2.Meaningful p ∧
      PowDefined (e.asPower.1.valueAt p) (e.asPower.2.valueAt p) := by
  cases e with
  | pow l r => exact meaningful_pow.1 h
  | _ => exact ⟨h, meaningful_ofInt 1, by simpa [asPower] using powDefined_one _⟩

/-- An operand has the value of the power it is seen as. -/
theorem valueAt_asPower (e : Expr ℝ) :
    e.valueAt p = e.asPower.1.valueAt p ^ e.asPower.2.valueAt p := by
  cases e with
  | pow l r => rfl
  | _ => simp [asPower]

/-- Meaningful trees that are the same have the same value. -/
theorem Meaningful.valueAt_eq {a b : Expr ℝ} (h : a.same b = true) (ha : a.Meaningful p)
    (hb : b.Meaningful p) :
    a.valueAt p = b.valueAt p :=
  valueAt_eq_of_same p h ha.markerFree ha.kindsAgree hb.kindsAgree

/-- What a shared factor leaves is meaningful, and both products are the factor times what remains
of them. -/
theorem valueAt_shared {l r : Expr ℝ × Expr ℝ} {f a b : Expr ℝ} (h : shared? l r = some (f, a, b))
    (hl : l.1.Meaningful p ∧ l.2.Meaningful p) (hr : r.1.Meaningful p ∧ r.2.Meaningful p) :
    (f.Meaningful p ∧ a.Meaningful p ∧ b.Meaningful p) ∧
      l.1.valueAt p * l.2.valueAt p = a.valueAt p * f.valueAt p ∧
      r.1.valueAt p * r.2.valueAt p = b.valueAt p * f.valueAt p := by
  obtain ⟨g, rfl | rfl, rfl | rfl, hsame⟩ := exists_of_shared? h
  · exact ⟨⟨hl.1, hl.2, hr.2⟩, mul_comm _ _, by rw [hl.1.valueAt_eq hsame hr.1, mul_comm]⟩
  · exact ⟨⟨hl.1, hl.2, hr.1⟩, mul_comm _ _, by rw [hl.1.valueAt_eq hsame hr.2]⟩
  · exact ⟨⟨hl.2, hl.1, hr.2⟩, rfl, by rw [hl.2.valueAt_eq hsame hr.1, mul_comm]⟩
  · exact ⟨⟨hl.2, hl.1, hr.1⟩, rfl, by rw [hl.2.valueAt_eq hsame hr.2]⟩

/-- Taking a shared factor out of a sum or difference keeps its value. -/
theorem keeps_factored (op : Linear) {l r f a b : Expr ℝ}
    (hs : shared? l.asFactors r.asFactors = some (f, a, b)) :
    Keeps p (op.apply l r) (mul (op.apply a b) f) := by
  intro h
  have hlr : l.Meaningful p ∧ r.Meaningful p := by
    cases op with
    | sum => exact meaningful_add.1 h
    | difference => exact meaningful_sub.1 h
  obtain ⟨⟨hf, ha, hb⟩, hleft, hright⟩ :=
    valueAt_shared hs (meaningful_asFactors hlr.1) (meaningful_asFactors hlr.2)
  rw [← valueAt_asFactors] at hleft hright
  cases op with
  | sum =>
    refine ⟨meaningful_mul.2 ⟨meaningful_add.2 ⟨ha, hb⟩, hf⟩, ?_⟩
    simp only [Linear.apply, valueAt, hleft, hright]
    ring
  | difference =>
    refine ⟨meaningful_mul.2 ⟨meaningful_sub.2 ⟨ha, hb⟩, hf⟩, ?_⟩
    simp only [Linear.apply, valueAt, hleft, hright]
    ring

/-- A defined power of a negative base has an integer exponent. -/
theorem PowDefined.exists_int {b x : ℝ} (h : PowDefined b x) (hb : b < 0) : ∃ n : ℤ, x = n := by
  rcases h with h | ⟨h, -⟩ | ⟨-, h⟩
  exacts [absurd h hb.not_gt, absurd h hb.ne, h]

/-- A defined power of zero has a positive exponent. -/
theorem PowDefined.exponent_pos {x : ℝ} (h : PowDefined 0 x) : 0 < x := by
  rcases h with h | ⟨-, h⟩ | ⟨h, -⟩
  exacts [absurd h (lt_irrefl 0), h, absurd h (lt_irrefl 0)]

/-- Exponents of one base add up. A zero base stays defined under a sum of positive exponents, a
negative one under a sum of integers. -/
theorem rpow_add_of_powDefined {b m n : ℝ} (hm : PowDefined b m) (hn : PowDefined b n) :
    PowDefined b (m + n) ∧ b ^ (m + n) = b ^ m * b ^ n := by
  rcases lt_trichotomy b 0 with hb | rfl | hb
  · obtain ⟨i, rfl⟩ := hm.exists_int hb
    obtain ⟨j, rfl⟩ := hn.exists_int hb
    refine ⟨.inr (.inr ⟨hb, i + j, by push_cast; rfl⟩), ?_⟩
    rw [Real.rpow_add_intCast hb.ne, Real.rpow_intCast b j]
  · have hpos := add_pos hm.exponent_pos hn.exponent_pos
    refine ⟨.inr (.inl ⟨rfl, hpos⟩), ?_⟩
    rw [Real.zero_rpow hm.exponent_pos.ne', Real.zero_rpow hpos.ne', zero_mul]
  · exact ⟨.inl hb, Real.rpow_add hb m n⟩

/-- Exponents of one base are taken from each other in a quotient, whose denominator keeps the base
from being zero. -/
theorem rpow_sub_of_powDefined {b m n : ℝ} (hm : PowDefined b m) (hn : PowDefined b n)
    (hb : b ^ n ≠ 0) :
    PowDefined b (m - n) ∧ b ^ (m - n) = b ^ m / b ^ n := by
  rcases lt_trichotomy b 0 with hneg | rfl | hpos
  · obtain ⟨i, rfl⟩ := hm.exists_int hneg
    obtain ⟨j, rfl⟩ := hn.exists_int hneg
    refine ⟨.inr (.inr ⟨hneg, i - j, by push_cast; rfl⟩), ?_⟩
    rw [Real.rpow_sub_intCast hneg.ne, Real.rpow_intCast b j]
  · exact absurd (Real.zero_rpow hn.exponent_pos.ne') hb
  · exact ⟨.inl hpos, Real.rpow_sub hpos m n⟩

/-- Joining the powers of one base keeps the value of a product. -/
theorem keeps_joined_mul {l r : Expr ℝ} (hs : l.asPower.1.same r.asPower.1 = true) :
    Keeps p (mul l r) (pow l.asPower.1 (add l.asPower.2 r.asPower.2)) := by
  intro h
  obtain ⟨hl, hr⟩ := meaningful_mul.1 h
  obtain ⟨hlb, hlx, hlp⟩ := meaningful_asPower hl
  obtain ⟨hrb, hrx, hrp⟩ := meaningful_asPower hr
  have hbase := hlb.valueAt_eq hs hrb
  obtain ⟨hdefined, hvalue⟩ := rpow_add_of_powDefined hlp (hbase ▸ hrp)
  refine ⟨meaningful_pow.2 ⟨hlb, meaningful_add.2 ⟨hlx, hrx⟩, hdefined⟩, ?_⟩
  simp only [valueAt]
  rw [hvalue, ← valueAt_asPower, hbase, ← valueAt_asPower]

/-- Joining the powers of one base keeps the value of a quotient. -/
theorem keeps_joined_div {l r : Expr ℝ} (hs : l.asPower.1.same r.asPower.1 = true) :
    Keeps p (div l r) (pow l.asPower.1 (sub l.asPower.2 r.asPower.2)) := by
  intro h
  obtain ⟨hl, hr, hzero⟩ := meaningful_div.1 h
  obtain ⟨hlb, hlx, hlp⟩ := meaningful_asPower hl
  obtain ⟨hrb, hrx, hrp⟩ := meaningful_asPower hr
  have hbase := hlb.valueAt_eq hs hrb
  rw [valueAt_asPower r, ← hbase] at hzero
  obtain ⟨hdefined, hvalue⟩ := rpow_sub_of_powDefined hlp (hbase ▸ hrp) hzero
  refine ⟨meaningful_pow.2 ⟨hlb, meaningful_sub.2 ⟨hlx, hrx⟩, hdefined⟩, ?_⟩
  simp only [valueAt]
  rw [hvalue, ← valueAt_asPower, hbase, ← valueAt_asPower]

/-! ### Rules -/

section

variable {l r : Expr ℝ} {kind : LogBase} {w : Rewriting ℝ}

/-- The rules for sums keep values. -/
theorem keeps_rule_add (hrule : Rule (add l r) w) : Keeps p (add l r) w.outcome := by
  intro h
  obtain ⟨hl, hr⟩ := meaningful_add.1 h
  cases hrule with
  | keep => exact ⟨h, rfl⟩
  | addZeroLeft hzero =>
    obtain rfl := eq_num_zero_of_isZero hzero
    exact ⟨hr, by simp [Rewriting.outcome, valueAt]⟩
  | addZeroRight hzero =>
    obtain rfl := eq_num_zero_of_isZero hzero
    exact ⟨hl, by simp [Rewriting.outcome, valueAt]⟩
  | addSame hs =>
    refine ⟨meaningful_mul.2 ⟨meaningful_ofInt 2, hl⟩, ?_⟩
    simp only [Rewriting.outcome, valueAt, valueAt_ofInt, ← hl.valueAt_eq hs hr]
    push_cast
    ring
  | addShared _ hs => exact keeps_factored .sum hs h

/-- The rules for differences keep values. -/
theorem keeps_rule_sub (hrule : Rule (sub l r) w) : Keeps p (sub l r) w.outcome := by
  intro h
  obtain ⟨hl, hr⟩ := meaningful_sub.1 h
  cases hrule with
  | keep => exact ⟨h, rfl⟩
  | subZeroLeft hzero =>
    obtain rfl := eq_num_zero_of_isZero hzero
    exact ⟨meaningful_mul.2 ⟨meaningful_ofInt _, hr⟩, by simp [Rewriting.outcome, valueAt]⟩
  | subZeroRight hzero =>
    obtain rfl := eq_num_zero_of_isZero hzero
    exact ⟨hl, by simp [Rewriting.outcome, valueAt]⟩
  | subSame hs =>
    exact ⟨meaningful_ofInt 0, by simp [Rewriting.outcome, valueAt, hl.valueAt_eq hs hr]⟩
  | subShared _ hs => exact keeps_factored .difference hs h

/-- The rules for products keep values. -/
theorem keeps_rule_mul (hrule : Rule (mul l r) w) : Keeps p (mul l r) w.outcome := by
  intro h
  obtain ⟨hl, hr⟩ := meaningful_mul.1 h
  cases hrule with
  | keep => exact ⟨h, rfl⟩
  | mulZero hzero =>
    refine ⟨meaningful_ofInt 0, ?_⟩
    rcases Bool.or_eq_true_iff.1 hzero with hzero | hzero <;>
      obtain rfl := eq_num_zero_of_isZero hzero <;>
      simp [Rewriting.outcome, valueAt]
  | mulOneLeft hone =>
    obtain rfl := eq_num_one_of_isOne hone
    exact ⟨hr, by simp [Rewriting.outcome, valueAt]⟩
  | mulOneRight hone =>
    obtain rfl := eq_num_one_of_isOne hone
    exact ⟨hl, by simp [Rewriting.outcome, valueAt]⟩
  | mulSame _ _ hs =>
    refine ⟨meaningful_pow.2 ⟨hl, meaningful_ofInt 2, by simpa using powDefined_two _⟩, ?_⟩
    simp [Rewriting.outcome, valueAt, ← hl.valueAt_eq hs hr, sq]
  | mulPowers _ hs => exact keeps_joined_mul hs h

/-- The rules for quotients keep values. -/
theorem keeps_rule_div (hrule : Rule (div l r) w) : Keeps p (div l r) w.outcome := by
  intro h
  obtain ⟨hl, hr, hzero⟩ := meaningful_div.1 h
  cases hrule with
  | keep => exact ⟨h, rfl⟩
  | divZero hnumerator =>
    obtain rfl := eq_num_zero_of_isZero hnumerator
    exact ⟨meaningful_ofInt 0, by simp [Rewriting.outcome, valueAt]⟩
  | divOne hone =>
    obtain rfl := eq_num_one_of_isOne hone
    exact ⟨hl, by simp [Rewriting.outcome, valueAt]⟩
  | divSame hs =>
    exact ⟨meaningful_ofInt 1, by simp [Rewriting.outcome, valueAt, hl.valueAt_eq hs hr, hzero]⟩
  | divPowers _ hs => exact keeps_joined_div hs h

/-- The rules for powers keep values. -/
theorem keeps_rule_pow (hrule : Rule (pow l r) w) : Keeps p (pow l r) w.outcome := by
  intro h
  obtain ⟨hl, hr, hdefined⟩ := meaningful_pow.1 h
  cases hrule with
  | keep => exact ⟨h, rfl⟩
  | powToZero hzero =>
    obtain rfl := eq_num_zero_of_isZero hzero
    exact ⟨meaningful_ofInt 1, by simp [Rewriting.outcome, valueAt]⟩
  | powOfZero _ hzero =>
    obtain rfl := eq_num_zero_of_isZero hzero
    have hpos := PowDefined.exponent_pos hdefined
    exact ⟨meaningful_ofInt 0, by simp [Rewriting.outcome, valueAt, Real.zero_rpow hpos.ne']⟩
  | powOfOne hone =>
    obtain rfl := eq_num_one_of_isOne hone
    exact ⟨meaningful_ofInt 1, by simp [Rewriting.outcome, valueAt]⟩
  | powToOne hone =>
    obtain rfl := eq_num_one_of_isOne hone
    exact ⟨hl, by simp [Rewriting.outcome, valueAt]⟩

/-- The rules for logarithms keep values. -/
theorem keeps_rule_log (hrule : Rule (log l r kind) w) : Keeps p (log l r kind) w.outcome := by
  intro h
  obtain ⟨hl, hr, hkind, hpos, hone, -⟩ := meaningful_log.1 h
  cases hrule with
  | keep => exact ⟨h, rfl⟩
  | logSame hs =>
    have hlog : Real.log (l.valueAt p) ≠ 0 := Real.log_ne_zero_of_pos_of_ne_one hpos hone
    refine ⟨meaningful_ofInt 1, ?_⟩
    rw [hkind, show log l r l.baseKind = logarithm l r from rfl, valueAt_logarithm,
      ← hl.valueAt_eq hs hr, div_self hlog]
    simp [Rewriting.outcome]

end

/-- Every rule keeps meaning and value. -/
theorem keeps_rewrite (e : Expr ℝ) : Keeps p e e.rewrite.outcome := by
  have hrule := rule_rewrite e
  cases e with
  | num | var | const | pending | sin | cos | tan => exact fun h => ⟨h, rfl⟩
  | add => exact keeps_rule_add hrule
  | sub => exact keeps_rule_sub hrule
  | mul => exact keeps_rule_mul hrule
  | div => exact keeps_rule_div hrule
  | pow => exact keeps_rule_pow hrule
  | log => exact keeps_rule_log hrule

/-- Every step of simplification keeps meaning and value. -/
theorem allows_keeps (p : Point) : Allows (Keeps p) where
  refl e h := ⟨h, rfl⟩
  trans hab hbc ha := ⟨(hbc (hab ha).1).1, (hbc (hab ha).1).2.trans (hab ha).2⟩
  add hl hr h := by
    obtain ⟨⟨hl, hlv⟩, hr, hrv⟩ := And.intro (hl (meaningful_add.1 h).1) (hr (meaningful_add.1 h).2)
    exact ⟨meaningful_add.2 ⟨hl, hr⟩, by simp only [valueAt, hlv, hrv]⟩
  sub hl hr h := by
    obtain ⟨⟨hl, hlv⟩, hr, hrv⟩ := And.intro (hl (meaningful_sub.1 h).1) (hr (meaningful_sub.1 h).2)
    exact ⟨meaningful_sub.2 ⟨hl, hr⟩, by simp only [valueAt, hlv, hrv]⟩
  mul hl hr h := by
    obtain ⟨⟨hl, hlv⟩, hr, hrv⟩ := And.intro (hl (meaningful_mul.1 h).1) (hr (meaningful_mul.1 h).2)
    exact ⟨meaningful_mul.2 ⟨hl, hr⟩, by simp only [valueAt, hlv, hrv]⟩
  div hl hr h := by
    obtain ⟨hl₀, hr₀, hzero⟩ := meaningful_div.1 h
    obtain ⟨⟨hl, hlv⟩, hr, hrv⟩ := And.intro (hl hl₀) (hr hr₀)
    exact ⟨meaningful_div.2 ⟨hl, hr, hrv ▸ hzero⟩, by simp only [valueAt, hlv, hrv]⟩
  pow hl hr h := by
    obtain ⟨hl₀, hr₀, hdefined⟩ := meaningful_pow.1 h
    obtain ⟨⟨hl, hlv⟩, hr, hrv⟩ := And.intro (hl hl₀) (hr hr₀)
    exact ⟨meaningful_pow.2 ⟨hl, hr, hlv ▸ hrv ▸ hdefined⟩, by simp only [valueAt, hlv, hrv]⟩
  log {l l' r r' kind} hl hr h := by
    obtain ⟨hl₀, hr₀, hkind, hdefined⟩ := meaningful_log.1 h
    obtain ⟨⟨hl, hlv⟩, hr, hrv⟩ := And.intro (hl hl₀) (hr hr₀)
    refine ⟨meaningful_log.2 ⟨hl, hr, rfl, hlv ▸ hrv ▸ hdefined⟩, ?_⟩
    rw [hkind, valueAt_logarithm, show log l r l.baseKind = logarithm l r from rfl,
      valueAt_logarithm, hlv, hrv]
  sin ha h := by
    obtain ⟨ha, hav⟩ := ha (meaningful_sin.1 h)
    exact ⟨meaningful_sin.2 ha, by simp only [valueAt, hav]⟩
  cos ha h := by
    obtain ⟨ha, hav⟩ := ha (meaningful_cos.1 h)
    exact ⟨meaningful_cos.2 ha, by simp only [valueAt, hav]⟩
  tan ha h := by
    obtain ⟨ha₀, hcos⟩ := meaningful_tan.1 h
    obtain ⟨ha, hav⟩ := ha ha₀
    exact ⟨meaningful_tan.2 ⟨ha, hav ▸ hcos⟩, by simp only [valueAt, hav]⟩
  folded h := keeps_folded p h
  rule _ := keeps_rewrite _

end

/-- Simplification keeps meaning: wherever a tree without pending derivatives, with no constant but
Euler's number and logarithms of the right kind, is defined in all its parts, so is its simplified
form, and evaluation gives both the same number. -/
theorem evaluate_simplify (e : Expr ℝ) (b : Bindings ℝ) (hm : e.MarkerFree) (hc : e.EulerOnly)
    (hk : e.KindsAgree) (hd : e.Defined b.point) :
    e.simplify.Defined b.point ∧ ∃ x, e.evaluate b = .ok x ∧ e.simplify.evaluate b = .ok x := by
  obtain ⟨hmeaningful, hvalue⟩ :=
    relates_simplify (allows_keeps b.point) e (meaningful_of hm hc hk hd)
  refine ⟨hmeaningful.defined, e.valueAt b.point, evaluate_eq_valueAt b hm, ?_⟩
  rw [evaluate_eq_valueAt b hmeaningful.markerFree, hvalue]

/-- The powers of a negative base are joined into one with an integer exponent. -/
theorem evaluate_simplify_negative_base :
    let e : Expr ℝ := mul (pow (var 'x') (num 2)) (pow (var 'x') (num (-3)))
    let b : Bindings ℝ := .ofList [('x', -2)]
    e.simplify.Defined b.point ∧ ∃ x, e.evaluate b = .ok x ∧ e.simplify.evaluate b = .ok x := by
  intro e b
  have hx : b.point.var 'x' = -2 := by
    simp [b, Bindings.point, Bindings.get?, Bindings.ofList, Bindings.bindAll, Bindings.bind]
  refine evaluate_simplify e b ?_ ?_ ?_ ?_
  · simp [e, MarkerFree, Everywhere, isPending]
  · simp [e, EulerOnly, Everywhere, IsEuler]
  · simp [e, KindsAgree, Everywhere, KindAgrees]
  · refine ⟨trivial, ⟨?_, trivial, trivial⟩, ?_, trivial, trivial⟩
    · exact .inr (.inr ⟨by simp [valueAt, hx], 2, by norm_num [valueAt]⟩)
    · exact .inr (.inr ⟨by simp [valueAt, hx], -3, by norm_num [valueAt]⟩)

end Formula.Expr
