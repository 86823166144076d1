import Formula.Proofs.Simplification.Settled

/-!
# Normal form

What cannot stand in a simplified tree, said without the rules: constants that are not folded,
operands that an operation does not need, equal operands, a factor that two terms share and a base
that a quotient has twice (`Expr.IsReducible`). A node that the rules leave alone is not reducible,
and neither is the product with minus one that they do not look at again. So no node that
simplification reaches is reducible afterwards.
-/

namespace Formula.Expr

variable {α : Type} [Scalar α]

/-- The factors of a product. What is no product counts as itself times one. -/
def factors : Expr α → List (Expr α)
  | mul l r => [l, r]
  | e => [e, ofInt 1]

/-- The base of a power. What is no power counts as itself to the first. -/
def powerBase : Expr α → Expr α
  | pow base _ => base
  | e => e

/-- Do two terms, one of them a product, have a factor in common? -/
def SharesFactor (l r : Expr α) : Prop :=
  (l.isProduct = true ∨ r.isProduct = true) ∧ ∃ f ∈ l.factors, ∃ g ∈ r.factors, f.same g = true

/-- Do two expressions, one of them a power, have the same base? -/
def SharesBase (l r : Expr α) : Prop :=
  (l.isPower = true ∨ r.isPower = true) ∧ l.powerBase.same r.powerBase = true

/-- Is the topmost operation one that could be done away with? -/
def IsRedundant : Expr α → Prop
  | add l r | sub l r => l.isZero = true ∨ r.isZero = true ∨ l.same r = true ∨ l.SharesFactor r
  | mul l r => l.isZero = true ∨ r.isZero = true ∨ l.isOne = true ∨ r.isOne = true ∨ l.same r = true
  | div l r => l.isZero = true ∨ r.isOne = true ∨ l.same r = true ∨ l.SharesBase r
  | pow base exponent =>
    base.isZero = true ∨ base.isOne = true ∨ exponent.isZero = true ∨ exponent.isOne = true
  | log base argument _ => base.same argument = true
  | _ => False

/-- Is the expression a number or a constant? -/
def IsConstantLeaf : Expr α → Prop
  | num _ | const _ => True
  | _ => False

/-- Is there something to reduce at the node: does it have a value without being a leaf, or is its
operation redundant? -/
def IsReducible (e : Expr α) : Prop :=
  (e.isConstant = true ∧ ¬ e.IsConstantLeaf) ∨ e.IsRedundant

variable {e l r : Expr α}

/-- A folded expression without variables is a number or a constant. -/
theorem isConstantLeaf_of_isFolded (h : e.IsFolded) (hconst : e.isConstant = true) :
    e.IsConstantLeaf := by
  have hinert := h.isInert hconst
  cases e with
  | num | const => trivial
  | var | pending => cases hconst
  | _ => cases hinert

/-! ## Nodes that the rules leave alone -/

/-- The base of a power is that of the operand seen as a power. -/
theorem powerBase_eq (e : Expr α) : e.powerBase = e.asPower.1 := by
  cases e <;> rfl

/-- Two products with a factor in common share it. -/
theorem shared?_ne_none (h : ∃ f ∈ l.factors, ∃ g ∈ r.factors, f.same g = true) :
    shared? l.asFactors r.asFactors ≠ none := by
  have hl : l.factors = [l.asFactors.1, l.asFactors.2] := by cases l <;> rfl
  have hr : r.factors = [r.asFactors.1, r.asFactors.2] := by cases r <;> rfl
  simp only [hl, hr, List.mem_cons, List.not_mem_nil, or_false] at h
  obtain ⟨f, rfl | rfl, g, rfl | rfl, hsame⟩ := h <;> unfold shared? <;> repeat' split <;> simp_all

/-- Where no rule has anything to do, no operation is redundant. -/
theorem HasNoRule.not_isRedundant (h : e.HasNoRule) : ¬ e.IsRedundant := by
  intro hredundant
  cases e with
  | num | var | const | pending | sin | cos | tan => exact hredundant
  | add l r | sub l r =>
    obtain ⟨hl, hr, hsame, hnone⟩ := h
    rcases hredundant with hl' | hr' | hsame' | ⟨hproduct, hshared⟩
    · exact hl hl'
    · exact hr hr'
    · exact hsame hsame'
    · exact shared?_ne_none hshared (hnone (Bool.or_eq_true_iff.2 hproduct))
  | mul l r =>
    obtain ⟨hzero, hl, hr, hsame, -⟩ := h
    rcases hredundant with hl' | hr' | hl' | hr' | hsame'
    · exact hzero (Bool.or_eq_true_iff.2 (.inl hl'))
    · exact hzero (Bool.or_eq_true_iff.2 (.inr hr'))
    · exact hl hl'
    · exact hr hr'
    · exact hsame hsame'
  | div l r =>
    obtain ⟨hl, hr, hsame, hnone⟩ := h
    rcases hredundant with hl' | hr' | hsame' | ⟨hpower, hshared⟩
    · exact hl hl'
    · exact hr hr'
    · exact hsame hsame'
    · exact hnone (Bool.or_eq_true_iff.2 hpower) (powerBase_eq l ▸ powerBase_eq r ▸ hshared)
  | pow base exponent =>
    obtain ⟨hexponent, hbase, hbase', hexponent'⟩ := h
    rcases hredundant with h | h | h | h
    · exact hbase h
    · exact hbase' h
    · exact hexponent h
    · exact hexponent' h
  | log base argument kind => exact h hredundant

/-- Only where there is no rule is the node left as it is. -/
theorem Rule.hasNoRule (h : Rule e (.settled e)) : e.HasNoRule := by
  cases h with
  | keep h => exact h

/-- A node that the rule for it leaves as it is has no redundant operation. -/
theorem not_isRedundant_of_rewrite (h : e.rewrite = .settled e) : ¬ e.IsRedundant :=
  (Rule.hasNoRule (h ▸ rule_rewrite e)).not_isRedundant

/-- Minus one times a power of minus one is not redundant: a product may have one base twice, since
only the operands themselves are compared. -/
theorem IsUnjoined.not_isRedundant [Scalar.TellsApart α] (h : e.IsUnjoined) : ¬ e.IsRedundant := by
  obtain ⟨hzero, hone⟩ := Scalar.TellsApart.minusOne (α := α)
  cases e with
  | mul l r =>
    cases r with
    | pow base exponent =>
      obtain ⟨rfl, -⟩ := h
      simp [IsRedundant, isZero, isOne, ofInt, same, hzero, hone]
    | _ => cases h
  | _ => cases h

/-- A settled node is not reducible. -/
theorem IsSettled.not_isReducible [Scalar.TellsApart α] (h : e.IsSettled) : ¬ e.IsReducible := by
  rintro (⟨hconst, hleaf⟩ | hredundant)
  · exact hleaf (isConstantLeaf_of_isFolded h.folded hconst)
  · exact h.rule.elim (not_isRedundant_of_rewrite · hredundant) (·.not_isRedundant hredundant)

/-- Simplification leaves nothing to reduce at any node that it reaches, whatever it started
from. -/
theorem reached_not_isReducible_simplify (e : Expr Float) :
    e.simplify.Reached fun s => ¬ s.IsReducible :=
  (reached_isSettled_simplify e).imp fun _ h => h.not_isReducible

end Formula.Expr
