import Formula.Proofs.Simplification.Steps

/-!
# Simplification as a descent

`Expr.heft` is a size of trees that no step of simplification increases (`heft_simplify_le`).
Whatever has no variables counts as one, since it is folded into a number; otherwise a sum weighs
less than the other operations, so that two powers joined into one weigh less than their product
even when the exponents are added.
-/

namespace Formula.Expr

variable {α : Type}

/-- The heft of an operation with two operands: one if it has no variables, and else that of both
with something for the operation. -/
def joinHeft (own m n : Nat) : Nat :=
  if m = 1 ∧ n = 1 then 1 else m + n + own

/-- A size of trees that is one for those without variables. -/
def heft : Expr α → Nat
  | num _ | const _ => 1
  | var _ | pending .. => 2
  | add l r => joinHeft 1 l.heft r.heft
  | sub l r | mul l r | div l r | pow l r | log l r _ => joinHeft 2 l.heft r.heft
  | sin a | cos a | tan a => if a.heft = 1 then 1 else a.heft + 1

section Numbers
variable {own m m' n n' : Nat}

/-- The heft of an operation is at most that of its operands and its own. -/
theorem joinHeft_le : joinHeft own m n ≤ m + n + own := by
  unfold joinHeft
  split <;> omega

/-- If an operand has a variable, the hefts of both add up with that of the operation. -/
theorem joinHeft_eq (h : ¬ (m = 1 ∧ n = 1)) : joinHeft own m n = m + n + own :=
  if_neg h

/-- An operation has heft one when both operands have. -/
theorem joinHeft_eq_one_iff (hm : 0 < m) (hown : 0 < own) :
    joinHeft own m n = 1 ↔ m = 1 ∧ n = 1 := by
  unfold joinHeft
  split <;> omega

/-- The heft of an operation is positive. -/
theorem joinHeft_pos (hm : 0 < m) : 0 < joinHeft own m n := by
  unfold joinHeft
  split <;> omega

/-- A left operand has no more heft than the operation. -/
theorem left_le_joinHeft : m ≤ joinHeft own m n := by
  unfold joinHeft
  split <;> omega

/-- A right operand has no more heft than the operation. -/
theorem right_le_joinHeft : n ≤ joinHeft own m n := by
  unfold joinHeft
  split <;> omega

/-- The heft of an operation does not depend on the order of its operands. -/
theorem joinHeft_comm : joinHeft own m n = joinHeft own n m := by
  simp only [joinHeft, and_comm, Nat.add_comm m n]

/-- Operands with less heft give an operation with no more. -/
theorem joinHeft_mono (hm' : 0 < m') (hn' : 0 < n') (hm : m' ≤ m) (hn : n' ≤ n) :
    joinHeft own m' n' ≤ joinHeft own m n := by
  unfold joinHeft
  split <;> split <;> omega

/-- Operands with no more heft, one of them with strictly less, give an operation with less. -/
theorem joinHeft_lt (hm' : 0 < m') (hn' : 0 < n') (hm : m' ≤ m) (hn : n' ≤ n)
    (h : m' < m ∨ n' < n) :
    joinHeft own m' n' < joinHeft own m n := by
  unfold joinHeft
  split <;> split <;> omega

end Numbers

variable {e l r : Expr α}

/-- The heft of an expression is positive. -/
theorem heft_pos (e : Expr α) : 0 < e.heft := by
  induction e with
  | num | const => exact Nat.one_pos
  | var | pending => exact Nat.two_pos
  | add _ _ ihl _ | sub _ _ ihl _ | mul _ _ ihl _ | div _ _ ihl _ | pow _ _ ihl _
  | log _ _ _ ihl _ =>
    exact joinHeft_pos ihl
  | sin | cos | tan =>
    rw [heft]
    split <;> omega

/-- The expressions of heft one are those without variables. -/
theorem heft_eq_one_iff : e.heft = 1 ↔ e.isConstant = true := by
  induction e with
  | num | const => exact iff_of_true rfl rfl
  | var | pending => exact iff_of_false (Nat.succ_ne_self 1) Bool.false_ne_true
  | add l r ihl ihr | sub l r ihl ihr | mul l r ihl ihr | div l r ihl ihr | pow l r ihl ihr
  | log l r _ ihl ihr =>
    rw [heft, joinHeft_eq_one_iff l.heft_pos (by decide), isConstant, Bool.and_eq_true]
    exact and_congr ihl ihr
  | sin a ih | cos a ih | tan a ih =>
    rw [isConstant, ← ih, heft]
    have := a.heft_pos
    split <;> omega

variable [Scalar α]

@[simp] theorem heft_ofInt (n : Int) : (ofInt n : Expr α).heft = 1 := rfl

/-- Expressions that are the same weigh the same. -/
theorem heft_of_same {a b : Expr α} (h : a.same b = true) : a.heft = b.heft := by
  replace h := matches_of_same h
  induction h with
  | num | var | const | pending => rfl
  | add _ _ ihl ihr | sub _ _ ihl ihr | mul _ _ ihl ihr | div _ _ ihl ihr | pow _ _ ihl ihr
  | log _ _ _ _ ihl ihr =>
    rw [heft, heft, ihl, ihr]
  | addSwap _ _ ihl ihr | mulSwap _ _ ihl ihr => rw [heft, heft, ihl, ihr, joinHeft_comm]
  | sin _ ih | cos _ ih | tan _ ih => rw [heft, heft, ih]

/-! ## Operands -/

/-- A folded product or power, or any folded node that is not inert, has a variable. -/
theorem IsFolded.heft_ne_one (h : e.IsFolded) (hinert : e.isInert = false) :
    e.heft ≠ 1 := fun hone =>
  Bool.false_ne_true (hinert.symm.trans (h.isInert (heft_eq_one_iff.1 hone)))

/-- In a product that is not folded the hefts add up. -/
theorem IsFolded.heft_mul (h : (mul l r).IsFolded) : (mul l r).heft = l.heft + r.heft + 2 :=
  joinHeft_eq fun hone => h.heft_ne_one rfl (if_pos hone)

/-- In a power that is not folded the hefts add up. -/
theorem IsFolded.heft_pow (h : (pow l r).IsFolded) : (pow l r).heft = l.heft + r.heft + 2 :=
  joinHeft_eq fun hone => h.heft_ne_one rfl (if_pos hone)

omit [Scalar α] in
/-- No product is left as it is. -/
theorem isInert_of_isProduct (h : e.isProduct = true) : e.isInert = false := by
  cases e with
  | mul => rfl
  | _ => cases h

omit [Scalar α] in
/-- No power is left as it is. -/
theorem isInert_of_isPower (h : e.isPower = true) : e.isInert = false := by
  cases e with
  | pow => rfl
  | _ => cases h

/-- A product weighs two more than its factors, and anything else one less than itself with the
factor one. -/
theorem heft_asFactors (h : e.IsFolded) :
    e.asFactors.1.heft + e.asFactors.2.heft + (if e.isProduct then 2 else 0) =
      e.heft + if e.isProduct then 0 else 1 := by
  cases e with
  | mul l r => exact h.heft_mul.symm
  | _ => rfl

/-- Seen as a power, an operand has the heft it had, less that of the operation, or one more for the
exponent. -/
theorem heft_asPower (h : e.IsFolded) :
    e.asPower.1.heft + e.asPower.2.heft + (if e.isPower then 2 else 0) =
      e.heft + if e.isPower then 0 else 1 := by
  cases e with
  | pow l r => exact h.heft_pow.symm
  | _ => rfl

/-- A shared factor with what remains of either product weighs as much as the factors of that
product. -/
theorem heft_shared? {l r : Expr α × Expr α} {f a b : Expr α} (h : shared? l r = some (f, a, b)) :
    f.heft + a.heft = l.1.heft + l.2.heft ∧ f.heft + b.heft = r.1.heft + r.2.heft := by
  obtain ⟨g, hl, hr, hsame⟩ := exists_of_shared? h
  have := heft_of_same hsame
  rcases hl with rfl | rfl <;> rcases hr with rfl | rfl <;> dsimp only <;> omega

/-! ## Rules -/

/-- The heft that a sum or a difference has of its own. -/
def Linear.heft : Linear → Nat
  | .sum => 1
  | .difference => 2

/-- Sums and differences have no more heft of their own than products and powers. -/
theorem Linear.heft_le_two (op : Linear) : op.heft ≤ 2 := by
  cases op <;> decide

omit [Scalar α] in
/-- The heft of a sum or difference, from those of its operands. -/
theorem heft_apply (op : Linear) (l r : Expr α) :
    (op.apply l r).heft = joinHeft op.heft l.heft r.heft := by
  cases op <;> rfl

/-- Taking out a shared factor does not raise the heft. -/
theorem heft_factored_le (op : Linear) {f a b : Expr α} (hl : l.IsFolded) (hr : r.IsFolded)
    (hproduct : (l.isProduct || r.isProduct) = true)
    (h : shared? l.asFactors r.asFactors = some (f, a, b)) :
    (mul (op.apply a b) f).heft ≤ (op.apply l r).heft := by
  have hshared := heft_shared? h
  have hleft := heft_asFactors hl
  have hright := heft_asFactors hr
  have hfactor := f.heft_pos
  have houtcome : (mul (op.apply a b) f).heft ≤ a.heft + b.heft + op.heft + f.heft + 2 := by
    rw [heft, heft_apply]
    have hrest : joinHeft op.heft a.heft b.heft ≤ a.heft + b.heft + op.heft := joinHeft_le
    exact Nat.le_trans joinHeft_le (by omega)
  have hnode : (op.apply l r).heft = l.heft + r.heft + op.heft := by
    rw [heft_apply]
    refine joinHeft_eq fun hone => ?_
    rcases Bool.or_eq_true_iff.1 hproduct with h | h
    · exact hl.heft_ne_one (isInert_of_isProduct h) hone.1
    · exact hr.heft_ne_one (isInert_of_isProduct h) hone.2
  rw [hnode]
  rcases Bool.or_eq_true_iff.1 hproduct with h | h <;> simp only [h, if_true] at hleft hright <;>
    split at * <;> omega

omit [Scalar α] in
/-- The outcome of joining powers weighs no more than the base once, the exponents and the two
operations. -/
theorem heft_powered_le (op : Linear) (base i j : Expr α) :
    (pow base (op.apply i j)).heft ≤ base.heft + (i.heft + j.heft + op.heft) + 2 := by
  have hexponent : joinHeft op.heft i.heft j.heft ≤ i.heft + j.heft + op.heft := joinHeft_le
  rw [heft, heft_apply]
  exact Nat.le_trans joinHeft_le (by omega)

/-- Putting powers of one base together does not raise the heft. -/
theorem heft_joined_le (op : Linear) (hl : l.IsFolded) (hr : r.IsFolded)
    (hpower : (l.isPower || r.isPower) = true) (hsame : l.asPower.1.same r.asPower.1 = true) :
    (pow l.asPower.1 (op.apply l.asPower.2 r.asPower.2)).heft ≤ joinHeft 2 l.heft r.heft := by
  have hshared := heft_of_same hsame
  have hleft := heft_asPower hl
  have hright := heft_asPower hr
  have hbase := l.asPower.1.heft_pos
  have hnode : joinHeft 2 l.heft r.heft = l.heft + r.heft + 2 := by
    refine joinHeft_eq fun hone => ?_
    rcases Bool.or_eq_true_iff.1 hpower with h | h
    · exact hl.heft_ne_one (isInert_of_isPower h) hone.1
    · exact hr.heft_ne_one (isInert_of_isPower h) hone.2
  refine Nat.le_trans (heft_powered_le op _ _ _) ?_
  have hop := op.heft_le_two
  rw [hnode]
  rcases Bool.or_eq_true_iff.1 hpower with h | h <;> simp only [h, if_true] at hleft hright <;>
    split at * <;> omega

/-- The number zero has heft one. -/
theorem heft_of_isZero (h : e.isZero = true) : e.heft = 1 := by
  cases e with
  | num => rfl
  | _ => cases h

/-- No rule makes a node with folded operands weigh more. -/
theorem Rule.heft_le {w : Rewriting α} (hrule : Rule e w) (h : e.Operands IsFolded) :
    w.outcome.heft ≤ e.heft := by
  cases hrule with
  | keep => exact Nat.le_refl _
  | addZeroLeft | mulOneLeft => exact right_le_joinHeft
  | addZeroRight | subZeroRight | mulOneRight | divOne | powToOne => exact left_le_joinHeft
  | subSame | mulZero | divZero | divSame | powToZero | powOfZero | powOfOne | logSame =>
    exact heft_pos _
  | @addSame l r hsame =>
    have := heft_of_same hsame
    have := l.heft_pos
    have hproduct : joinHeft 2 1 l.heft ≤ joinHeft 1 l.heft r.heft := by
      unfold joinHeft
      split <;> split <;> omega
    exact hproduct
  | subZeroLeft hzero =>
    rw [Rewriting.outcome, heft, heft, heft_of_isZero hzero]
    exact Nat.le_refl _
  | @mulSame l r => exact joinHeft_mono l.heft_pos Nat.one_pos (Nat.le_refl _) r.heft_pos
  | addShared hproduct hs => exact heft_factored_le .sum h.1 h.2 hproduct hs
  | subShared hproduct hs => exact heft_factored_le .difference h.1 h.2 hproduct hs
  | mulPowers hpower hsame => exact heft_joined_le .sum h.1 h.2 hpower hsame
  | divPowers hpower hsame => exact heft_joined_le .difference h.1 h.2 hpower hsame

/-- The rule for a node does not raise its heft. -/
theorem heft_rewrite_le (h : e.Operands IsFolded) : e.rewrite.outcome.heft ≤ e.heft :=
  (rule_rewrite e).heft_le h

/-- The value of a constant has heft one. -/
theorem heft_folded? {value : Expr α} (h : e.folded? = some value) : value.heft = 1 :=
  heft_eq_one_iff.2 (by
    unfold folded? at h
    split at h
    · cases h
    · split at h
      · obtain rfl := Option.some.inj h
        split <;> rfl
      · cases h)

/-! ## Simplification -/

/-- To weigh no more than another is a relation that the steps of simplification are allowed by. -/
theorem allows_heft_le : Allows fun a b : Expr α => b.heft ≤ a.heft := by
  have hjoin : ∀ {own : Nat} {l l' r r' : Expr α}, l'.heft ≤ l.heft → r'.heft ≤ r.heft →
      joinHeft own l'.heft r'.heft ≤ joinHeft own l.heft r.heft := fun hl hr =>
    joinHeft_mono (heft_pos _) (heft_pos _) hl hr
  have hfunction : ∀ {a a' : Expr α}, a'.heft ≤ a.heft →
      (if a'.heft = 1 then 1 else a'.heft + 1) ≤ if a.heft = 1 then 1 else a.heft + 1 := by
    intro a a' h
    have := a'.heft_pos
    split <;> split <;> omega
  exact {
    refl := fun _ => Nat.le_refl _
    trans := fun hab hbc => Nat.le_trans hbc hab
    add := hjoin
    sub := hjoin
    mul := hjoin
    div := hjoin
    pow := hjoin
    log := hjoin
    sin := hfunction
    cos := hfunction
    tan := hfunction
    folded := fun hfold => heft_folded? hfold ▸ heft_pos _
    rule := heft_rewrite_le }

/-- Simplification never makes a tree weigh more. -/
theorem heft_simplify_le (e : Expr α) : e.simplify.heft ≤ e.heft :=
  relates_simplify allows_heft_le e

/-- Folding does not raise the heft. -/
theorem heft_fold_le (e : Expr α) : e.fold.heft ≤ e.heft :=
  allows_heft_le.fold e

/-- What is left to do after a rule does not make its outcome weigh more. -/
theorem heft_finish_le (w : Rewriting α) : w.finish.heft ≤ w.outcome.heft := by
  cases w with
  | settled e => exact e.heft_fold_le
  | again e => exact Nat.le_trans (heft_fold_le _) e.heft_simplify_le
  | factored rest factor =>
    refine Nat.le_trans (heft_fold_le _) (Nat.le_trans (heft_simplify_le _) ?_)
    exact joinHeft_mono (heft_pos _) factor.heft_pos rest.heft_simplify_le (Nat.le_refl _)
  | powered base exponent =>
    refine Nat.le_trans (heft_fold_le _) (Nat.le_trans (heft_simplify_le _) ?_)
    exact joinHeft_mono base.heft_pos (heft_pos _) (Nat.le_refl _) exponent.heft_simplify_le

/-- If no operand gains heft and one of them loses some, so does the node. -/
theorem heft_mapOperands_lt {g : Expr α → Expr α} (hle : ∀ c, (g c).heft ≤ c.heft)
    (h : ¬ e.Operands fun c => c.heft ≤ (g c).heft) :
    (e.mapOperands fun c _ => g c).heft < e.heft := by
  cases e with
  | num | var | const | pending => exact absurd trivial h
  | add l r | sub l r | mul l r | div l r | pow l r | log l r =>
    refine joinHeft_lt (heft_pos _) (heft_pos _) (hle l) (hle r) ?_
    simpa only [Operands, Classical.not_and_iff_not_or_not, Nat.not_le] using h
  | sin a | cos a | tan a =>
    have ha : (g a).heft < a.heft := Nat.not_le.1 h
    have := (g a).heft_pos
    simp only [mapOperands, heft]
    split <;> split <;> omega

end Formula.Expr
