import Formula.Expr.Simplification

/-!
# Simplification as a sequence of steps

Whatever simplification does, it does by folding a constant, by replacing operands and by applying
one rule to a node. So a relation between trees that allows these steps, one after the other,
relates every tree to its simplified form, `Expr.relates_simplify`. The rules that leave something
to simplify appear in it only through the expression that they leave, `Rewriting.outcome`, and they
are applied only to nodes with simplified operands, which have no constant left to fold.
-/

namespace Formula

variable {α : Type}

/-- The expression that a rule turns a node into, before what is left to do is done. -/
def Rewriting.outcome : Rewriting α → Expr α
  | settled e | again e => e
  | factored rest factor => .mul rest factor
  | powered base exponent => .pow base exponent

namespace Expr

/-! ## Operands -/

/-- The operands that simplification works on have a property. What stands in a pending derivative
is left alone. -/
def Operands (P : Expr α → Prop) : Expr α → Prop
  | add l r | sub l r | mul l r | div l r | pow l r | log l r _ => P l ∧ P r
  | sin a | cos a | tan a => P a
  | num _ | var _ | const _ | pending .. => True

/-- A weaker property holds of the operands too. -/
theorem Operands.imp {P Q : Expr α → Prop} {e : Expr α} (himp : ∀ c, P c → Q c) (h : e.Operands P) :
    e.Operands Q := by
  cases e with
  | num | var | const | pending => trivial
  | add | sub | mul | div | pow | log => exact ⟨himp _ h.1, himp _ h.2⟩
  | sin | cos | tan => exact himp _ h

/-- Two properties of the operands hold of them together. -/
theorem Operands.and {P Q : Expr α → Prop} {e : Expr α} (hP : e.Operands P) (hQ : e.Operands Q) :
    e.Operands fun c => P c ∧ Q c := by
  cases e with
  | num | var | const | pending => trivial
  | add | sub | mul | div | pow | log => exact ⟨⟨hP.1, hQ.1⟩, hP.2, hQ.2⟩
  | sin | cos | tan => exact ⟨hP, hQ⟩

variable [Scalar α]

/-- The operands of a node to which a function was applied have what the function gives. -/
theorem operands_mapOperands {P : Expr α → Prop} {e : Expr α}
    {f : (c : Expr α) → c.size < e.size → Expr α} (hf : ∀ c hc, P (f c hc)) :
    (e.mapOperands f).Operands P := by
  cases e with
  | num | var | const | pending => trivial
  | add | sub | mul | div | pow | log => exact ⟨hf _ _, hf _ _⟩
  | sin | cos | tan => exact hf _ _

/-- A property of simplified forms holds of simplified operands. -/
theorem operands_simplifiedOperands {P : Expr α → Prop} {e : Expr α}
    (h : ∀ c : Expr α, c.size < e.size → P c.simplify) : e.simplifiedOperands.Operands P :=
  operands_mapOperands h

/-! ## Folded expressions -/

/-- Is the expression none that would be folded into a number? -/
def IsFolded (e : Expr α) : Prop :=
  e.folded? = none

/-- What is left as it is need not be folded. -/
theorem isFolded_of_isInert {e : Expr α} (h : e.isInert = true) : e.IsFolded := by
  simp [IsFolded, folded?, h]

/-- The value of a constant is left as it is. -/
theorem isInert_of_folded? {e r : Expr α} (h : e.folded? = some r) : r.isInert = true := by
  unfold folded? at h
  split at h
  · cases h
  · split at h
    · obtain rfl := Option.some.inj h
      split <;> rfl
    · cases h

/-- Only what is free of variables is folded. -/
theorem isConstant_of_folded? {e r : Expr α} (h : e.folded? = some r) : e.isConstant = true := by
  unfold folded? at h
  split at h
  · cases h
  next hconst =>
    simp only [Bool.or_eq_true, Bool.not_eq_true', not_or, Bool.not_eq_false] at hconst
    exact hconst.2

/-- What need not be folded is left as it is. -/
theorem fold_eq_self {e : Expr α} (h : e.IsFolded) : e.fold = e := by
  rw [fold, h, Option.getD_none]

/-- What was folded need not be folded again. -/
theorem isFolded_fold (e : Expr α) : e.fold.IsFolded := by
  cases h : e.folded? with
  | none => rwa [fold_eq_self h]
  | some r => simpa [fold, h] using isFolded_of_isInert (isInert_of_folded? h)

/-- A finished node need not be folded. -/
theorem isFolded_finish (w : Rewriting α) : w.finish.IsFolded := by
  cases w <;> exact isFolded_fold _

/-- Nothing in simplified form need be folded. -/
theorem isFolded_simplify (e : Expr α) : e.simplify.IsFolded := by
  rw [simplify_eq]
  split
  next hinert => exact isFolded_of_isInert hinert
  · cases h : e.folded? with
    | none => exact isFolded_finish _
    | some r => exact isFolded_of_isInert (isInert_of_folded? h)

/-- An expression without variables has a value. -/
theorem exists_evaluate_of_isConstant {e : Expr α} (h : e.isConstant = true) (b : Bindings α) :
    ∃ x, e.evaluate b = .ok x := by
  induction e with
  | num | const => exact ⟨_, rfl⟩
  | var | pending => cases h
  | add _ _ ihl ihr | sub _ _ ihl ihr | mul _ _ ihl ihr | div _ _ ihl ihr | pow _ _ ihl ihr =>
    simp only [isConstant, Bool.and_eq_true] at h
    obtain ⟨x, hx⟩ := ihl h.1
    obtain ⟨y, hy⟩ := ihr h.2
    exact ⟨_, by rw [evaluate, hx, hy]; rfl⟩
  | log _ _ kind ihb iha =>
    simp only [isConstant, Bool.and_eq_true] at h
    obtain ⟨x, hx⟩ := ihb h.1
    obtain ⟨y, hy⟩ := iha h.2
    cases kind <;> exact ⟨_, by rw [evaluate, hy]; simp only [hx]; rfl⟩
  | sin _ ih | cos _ ih | tan _ ih =>
    obtain ⟨x, hx⟩ := ih h
    exact ⟨_, by rw [evaluate, hx]; rfl⟩

/-- Of the expressions without variables only numbers and constants are not folded. -/
theorem IsFolded.isInert {e : Expr α} (h : e.IsFolded) (hconst : e.isConstant = true) :
    e.isInert = true := by
  obtain ⟨x, hx⟩ := exists_evaluate_of_isConstant hconst {}
  rw [← Bool.not_eq_false]
  intro hinert
  simp [IsFolded, folded?, hinert, hconst, value, hx] at h

/-! ## Steps -/

/-- A relation that allows the steps of simplification. -/
structure Allows (R : Expr α → Expr α → Prop) : Prop where
  refl : ∀ e, R e e
  trans : ∀ {a b c}, R a b → R b c → R a c
  add : ∀ {l l' r r'}, R l l' → R r r' → R (add l r) (add l' r')
  sub : ∀ {l l' r r'}, R l l' → R r r' → R (sub l r) (sub l' r')
  mul : ∀ {l l' r r'}, R l l' → R r r' → R (mul l r) (mul l' r')
  div : ∀ {l l' r r'}, R l l' → R r r' → R (div l r) (div l' r')
  pow : ∀ {l l' r r'}, R l l' → R r r' → R (pow l r) (pow l' r')
  log : ∀ {l l' r r' kind}, R l l' → R r r' → R (log l r kind) (logarithm l' r')
  sin : ∀ {a a'}, R a a' → R (sin a) (sin a')
  cos : ∀ {a a'}, R a a' → R (cos a) (cos a')
  tan : ∀ {a a'}, R a a' → R (tan a) (tan a')
  folded : ∀ {e r}, e.folded? = some r → R e r
  rule : ∀ {e}, e.Operands IsFolded → R e e.rewrite.outcome

namespace Allows

variable {R : Expr α → Expr α → Prop} (h : Allows R)
include h

/-- What allows the steps of simplification allows folding. -/
theorem fold (e : Expr α) : R e e.fold := by
  unfold Expr.fold
  cases he : e.folded? with
  | none => exact h.refl e
  | some r => exact h.folded he

/-- A relation that allows the steps of simplification carries over from the operands to the node.
-/
theorem mapOperands {e : Expr α} {f : (c : Expr α) → c.size < e.size → Expr α}
    (hf : ∀ c hc, R c (f c hc)) :
    R e (e.mapOperands f) := by
  cases e with
  | num | var | const | pending => exact h.refl _
  | add => exact h.add (hf _ _) (hf _ _)
  | sub => exact h.sub (hf _ _) (hf _ _)
  | mul => exact h.mul (hf _ _) (hf _ _)
  | div => exact h.div (hf _ _) (hf _ _)
  | pow => exact h.pow (hf _ _) (hf _ _)
  | log => exact h.log (hf _ _) (hf _ _)
  | sin => exact h.sin (hf _ _)
  | cos => exact h.cos (hf _ _)
  | tan => exact h.tan (hf _ _)

end Allows

/-- What is left to do after a rule relates to its outcome, if smaller expressions relate to their
simplified forms. -/
theorem Allows.finish {R : Expr α → Expr α → Prop} (h : Allows R) {e node : Expr α}
    {w : Rewriting α} (hsize : node.size ≤ e.size) (hrank : node.rank = e.rank) (hw : w.Fits node)
    (ih : ∀ c : Expr α, c.weight < e.weight → R c c.simplify) : R w.outcome w.finish := by
  cases w with
  | settled r => exact h.fold r
  | again r =>
    have hr := weight_lt_of_rank_lt (Nat.le_trans hw.1 hsize) (hrank ▸ hw.2)
    exact h.trans (ih r hr) (h.fold _)
  | factored rest factor =>
    have hrest := weight_lt_of_size_lt (Nat.lt_of_lt_of_le hw.1 hsize)
    have hmul := Nat.le_trans (size_mul_le_of_fits hw rest.size_simplify_le) hsize
    have hproduct := ih (.mul rest.simplify factor) (weight_lt_of_rank_lt hmul (hrank ▸ hw.2.2))
    exact h.trans (h.mul (ih rest hrest) (h.refl factor)) (h.trans hproduct (h.fold _))
  | powered base exponent =>
    have hexponent := weight_lt_of_size_lt (Nat.lt_of_lt_of_le hw.1 hsize)
    have hpow := Nat.le_trans (size_pow_le_of_fits hw exponent.size_simplify_le) hsize
    have hpower := ih (.pow base exponent.simplify) (weight_lt_of_rank_lt hpow (hrank ▸ hw.2.2))
    exact h.trans (h.pow (h.refl base) (ih exponent hexponent)) (h.trans hpower (h.fold _))

/-- A relation that allows the steps of simplification relates every expression to its simplified
form. -/
theorem relates_simplify {R : Expr α → Expr α → Prop} (h : Allows R) (e : Expr α) :
    R e e.simplify := by
  induction hn : e.weight using Nat.strongRecOn generalizing e with
  | ind n ih =>
    subst hn
    have ih : ∀ c : Expr α, c.weight < e.weight → R c c.simplify := fun c hc => ih _ hc c rfl
    rw [simplify_eq]
    split
    · exact h.refl e
    · cases hfold : e.folded? with
      | some r => exact h.folded hfold
      | none =>
        have hoperands : R e e.simplifiedOperands :=
          h.mapOperands fun c hc => ih c (weight_lt_of_size_lt hc)
        have hfinish := h.finish e.size_simplifiedOperands_le e.rank_simplifiedOperands
          (fits_rewrite e.simplifiedOperands) ih
        have hrule := h.rule (operands_simplifiedOperands (e := e) fun c _ => c.isFolded_simplify)
        exact h.trans hoperands (h.trans hrule hfinish)

end Expr

end Formula
