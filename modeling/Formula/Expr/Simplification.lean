import Formula.Expr.Derivative
import Formula.Expr.Rewriting

/-!
# Simplification

Constant subtrees are folded into numbers, operands come before the node that joins them, and at
each node one rule of `Formula.Expr.Rewriting` is applied. A rule may leave an expression to
simplify that is no part of the one it started from; the recursion still ends, because what is left
is smaller or equally large and of lower rank. Leaves and pending derivatives stay as they are.
-/

namespace Formula.Expr

variable {α : Type} [Scalar α]

/-- Does simplification leave the expression as it is? -/
def isInert : Expr α → Bool
  | num _ | var _ | const _ | pending .. => true
  | _ => false

/-- The value of an expression that is free of variables and no leaf, as a number. A zero loses its
sign. -/
def folded? (e : Expr α) : Option (Expr α) :=
  if e.isInert || !e.isConstant then none
  else match e.value with
    | .ok value => some (if Scalar.isZero value then ofInt 0 else num value)
    | .error _ => none

/-- The expression, folded if it can be. -/
def fold (e : Expr α) : Expr α :=
  e.folded?.getD e

/-- A folded expression is a single leaf. -/
theorem size_of_folded? {e r : Expr α} (h : e.folded? = some r) : r.size = 1 := by
  unfold folded? at h
  split at h
  · simp at h
  · split at h
    · obtain rfl := Option.some.inj h
      split <;> rfl
    · simp at h

/-- Folding makes no expression larger. -/
theorem size_fold_le (e : Expr α) : e.fold.size ≤ e.size := by
  unfold fold
  cases h : e.folded? with
  | none => exact Nat.le_refl _
  | some r => exact size_of_folded? h ▸ e.size_pos

omit [Scalar α] in
/-- A left operand is smaller than the operation. -/
theorem size_left_lt (l r : Expr α) : l.size < l.size + r.size + 1 :=
  Nat.lt_succ_of_le (Nat.le_add_right _ _)

omit [Scalar α] in
/-- A right operand is smaller than the operation. -/
theorem size_right_lt (l r : Expr α) : r.size < l.size + r.size + 1 :=
  Nat.lt_succ_of_le (Nat.le_add_left _ _)

/-- The expression with a function applied to its operands, which may use that they are smaller.
Leaves and pending derivatives have no operands here; a logarithm gets the kind of its new base. -/
def mapOperands (e : Expr α) (f : (c : Expr α) → c.size < e.size → Expr α) : Expr α :=
  match e with
  | add l r => add (f l (size_left_lt l r)) (f r (size_right_lt l r))
  | sub l r => sub (f l (size_left_lt l r)) (f r (size_right_lt l r))
  | mul l r => mul (f l (size_left_lt l r)) (f r (size_right_lt l r))
  | div l r => div (f l (size_left_lt l r)) (f r (size_right_lt l r))
  | pow l r => pow (f l (size_left_lt l r)) (f r (size_right_lt l r))
  | log l r _ => logarithm (f l (size_left_lt l r)) (f r (size_right_lt l r))
  | sin a => sin (f a (Nat.lt_succ_self _))
  | cos a => cos (f a (Nat.lt_succ_self _))
  | tan a => tan (f a (Nat.lt_succ_self _))
  | e => e

/-- The rank of a node does not depend on its operands. -/
theorem rank_mapOperands (e : Expr α) (f : (c : Expr α) → c.size < e.size → Expr α) :
    (e.mapOperands f).rank = e.rank := by
  cases e <;> rfl

/-- A node grows no larger when none of its operands does. -/
theorem size_mapOperands_le (e : Expr α) (f : (c : Expr α) → c.size < e.size → Expr α)
    (hf : ∀ c h, (f c h).size ≤ c.size) : (e.mapOperands f).size ≤ e.size := by
  cases e with
  | num _ | var _ | const _ | pending _ _ _ => exact Nat.le_refl _
  | add l r | sub l r | mul l r | div l r | pow l r | log l r _ =>
    have hl := hf l (size_left_lt l r)
    have hr := hf r (size_right_lt l r)
    simp only [mapOperands, logarithm, size]
    omega
  | sin a | cos a | tan a =>
    have ha := hf a (Nat.lt_succ_self _)
    simp only [mapOperands, size]
    omega

/-- The measure of the recursion: size comes first and rank, which is at most two, breaks ties. -/
def weight (e : Expr α) : Nat :=
  3 * e.size + e.rank

section

omit [Scalar α]

/-- Ranks go up to two. -/
theorem rank_le_two (e : Expr α) : e.rank ≤ 2 := by
  cases e <;> simp [rank]

/-- A smaller expression weighs less, whatever the ranks. -/
theorem weight_lt_of_size_lt {c e : Expr α} (h : c.size < e.size) : c.weight < e.weight := by
  have := c.rank_le_two
  unfold weight
  omega

/-- Among expressions of one size the one of lower rank weighs less. -/
theorem weight_lt_of_rank_lt {c e : Expr α} (hs : c.size ≤ e.size) (hr : c.rank < e.rank) :
    c.weight < e.weight := by
  unfold weight
  omega

/-- A product of something no larger than the rest with the factor is no larger than the node. -/
theorem size_mul_le_of_fits {node rest rest' factor : Expr α}
    (h : Rewriting.Fits node (.factored rest factor)) (hrest : rest'.size ≤ rest.size) :
    (mul rest' factor).size ≤ node.size := by
  have := h.2.1
  simp only [size]
  omega

/-- A power of the base to something no larger than the exponent is no larger than the node. -/
theorem size_pow_le_of_fits {node base exponent exponent' : Expr α}
    (h : Rewriting.Fits node (.powered base exponent))
    (hexponent : exponent'.size ≤ exponent.size) :
    (pow base exponent').size ≤ node.size := by
  have := h.2.1
  simp only [size]
  omega

end

/-- The simplified form of an expression, with the bound on its size that the recursion rests on. -/
def simplifyBounded (e : Expr α) : { r : Expr α // r.size ≤ e.size } :=
  if e.isInert then ⟨e, Nat.le_refl _⟩
  else match hfold : e.folded? with
  | some r => ⟨r, size_of_folded? hfold ▸ e.size_pos⟩
  | none =>
    let node := e.mapOperands fun c _ => (simplifyBounded c).1
    have hsize : node.size ≤ e.size := size_mapOperands_le e _ fun c _ => (simplifyBounded c).2
    match node.rewrite, fits_rewrite node with
    | .settled r, hr => ⟨r.fold, Nat.le_trans (size_fold_le r) (Nat.le_trans hr hsize)⟩
    | .again r, hr =>
      let s := simplifyBounded r
      ⟨s.1.fold, Nat.le_trans (size_fold_le _) (Nat.le_trans s.2 (Nat.le_trans hr.1 hsize))⟩
    | .factored rest factor, hr =>
      let rest' := simplifyBounded rest
      have hmul := Nat.le_trans (size_mul_le_of_fits hr rest'.2) hsize
      let s := simplifyBounded (mul rest'.1 factor)
      ⟨s.1.fold, Nat.le_trans (size_fold_le _) (Nat.le_trans s.2 hmul)⟩
    | .powered base exponent, hr =>
      let exponent' := simplifyBounded exponent
      have hpow := Nat.le_trans (size_pow_le_of_fits hr exponent'.2) hsize
      let s := simplifyBounded (pow base exponent'.1)
      ⟨s.1.fold, Nat.le_trans (size_fold_le _) (Nat.le_trans s.2 hpow)⟩
termination_by e.weight
decreasing_by
  · exact weight_lt_of_size_lt ‹_›
  · exact weight_lt_of_size_lt ‹_›
  · exact weight_lt_of_rank_lt (Nat.le_trans hr.1 hsize)
      (Nat.lt_of_lt_of_eq hr.2 (rank_mapOperands e _))
  · exact weight_lt_of_size_lt (Nat.lt_of_lt_of_le hr.1 hsize)
  · exact weight_lt_of_rank_lt hmul (Nat.lt_of_lt_of_eq hr.2.2 (rank_mapOperands e _))
  · exact weight_lt_of_size_lt (Nat.lt_of_lt_of_le hr.1 hsize)
  · exact weight_lt_of_rank_lt hpow (Nat.lt_of_lt_of_eq hr.2.2 (rank_mapOperands e _))

/-- The simplified form of an expression. -/
def simplify (e : Expr α) : Expr α :=
  e.simplifyBounded.1

/-- Simplification never makes an expression larger. -/
theorem size_simplify_le (e : Expr α) : e.simplify.size ≤ e.size :=
  e.simplifyBounded.2

/-- The node over the simplified operands, to which a rule is applied. -/
def simplifiedOperands (e : Expr α) : Expr α :=
  e.mapOperands fun c _ => c.simplify

/-- A node with simplified operands is as large as the node or smaller. -/
theorem size_simplifiedOperands_le (e : Expr α) : e.simplifiedOperands.size ≤ e.size :=
  size_mapOperands_le e _ fun c _ => c.size_simplify_le

/-- Simplifying the operands leaves the operation that joins them. -/
theorem rank_simplifiedOperands (e : Expr α) : e.simplifiedOperands.rank = e.rank :=
  rank_mapOperands e _

/-- The derivative of some order, simplified before the first and after every differentiation. -/
def nthDerivative (v : Char) (n : Nat) (e : Expr α) : Expr α :=
  n.repeat (fun e => (e.derivative v).simplify) e.simplify

end Formula.Expr

namespace Formula.Rewriting

variable {α : Type} [Scalar α]

/-- What becomes of a node for which a rule has left something to do. -/
def finish : Rewriting α → Expr α
  | settled e => e.fold
  | again e => e.simplify.fold
  | factored rest factor => (Expr.mul rest.simplify factor).simplify.fold
  | powered base exponent => (Expr.pow base exponent.simplify).simplify.fold

end Formula.Rewriting

namespace Formula.Expr

variable {α : Type} [Scalar α]

/-- Simplification in one equation: folding, then the operands, then a rule. -/
theorem simplify_eq (e : Expr α) :
    e.simplify =
      if e.isInert then e
      else e.folded?.getD e.simplifiedOperands.rewrite.finish := by
  unfold simplifiedOperands simplify
  rw [simplifyBounded]
  split
  · rfl
  · split
    next hfold => simp [hfold]
    next hfold =>
      simp only [hfold, Option.getD_none]
      split
      next h _ => rw [h]; rfl
      next h _ => rw [h]; rfl
      next h _ => rw [h]; rfl
      next h _ => rw [h]; rfl

end Formula.Expr
