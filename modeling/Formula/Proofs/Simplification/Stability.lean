import Mathlib.Control.Monad.Basic
import Formula.Decimal.Shortest
import Formula.Proofs.Expr.Reordered
import Formula.Proofs.Simplification.Heft
import Formula.Proofs.Simplification.Settled
import Formula.Reading.Parse

/-!
# Is a simplified tree stable?

Simplifying a simplified tree again gives the same tree, up to the order of the operands of sums and
products, exactly when no minus one stands in it as a factor of a power of minus one
(`same_simplify_simplify_iff`). Such a product is what a difference from zero leaves behind: the
minus one that it puts before the power is not simplified. If there is one, simplification joins the
two, and what comes out weighs less (`heft_simplify_lt`), so that it cannot be the same.
-/

namespace Formula.Expr

/-- Minus one and a power of minus one are joined into one power, which weighs less. -/
theorem heft_rewrite_lt {e : Expr Float} (hunjoined : e.IsUnjoined) (hfolded : e.IsFolded)
    (hops : e.Operands IsFolded) : e.rewrite.outcome.heft < e.heft := by
  cases e with
  | mul l r =>
    cases r with
    | pow base exponent =>
      obtain ⟨rfl, hsame⟩ := hunjoined
      have hrule : (mul (ofInt (-1)) (pow base exponent)).rewrite =
          .powered (ofInt (-1)) (add (ofInt 1) exponent) :=
        (rewrite_opposite fun _ h => Expr.noConfusion rfl (heq_of_eq h)).trans
          (if_pos rfl |>.trans (if_pos hsame))
      have hbase : (ofInt (-1) : Expr Float).heft = base.heft := heft_of_same hsame
      have hpowered := heft_powered_le .sum (ofInt (-1) : Expr Float) (ofInt 1) exponent
      have hpow : (pow base exponent).heft = base.heft + exponent.heft + 2 :=
        IsFolded.heft_pow hops.2
      rw [hrule, hfolded.heft_mul, hpow]
      simp only [Linear.heft, Linear.apply, Rewriting.outcome, heft_ofInt] at hbase hpowered ⊢
      omega
    | _ => cases hunjoined
  | _ => cases hunjoined

/-- What is left as it is is not minus one times a power of minus one. -/
theorem not_isUnjoined_of_isInert {e : Expr Float} (h : e.isInert = true) : ¬ e.IsUnjoined := by
  cases e with
  | num | var | const | pending => exact id
  | _ => cases h

/-- A tree of settled nodes in which powers would be joined weighs less when it is simplified. -/
theorem heft_simplify_lt {e : Expr Float} (hsettled : e.Reached IsSettled)
    (hunjoined : ¬ e.Reached fun s => ¬ s.IsUnjoined) : e.simplify.heft < e.heft := by
  induction e using induction_operands with
  | h e ih =>
    obtain ⟨hnode, hops⟩ := reached_iff.1 hsettled
    have hinert : e.isInert = false := by
      cases h : e.isInert with
      | false => rfl
      | true => exact absurd (reached_of_isInert h (not_isUnjoined_of_isInert h)) hunjoined
    have hrule :
        e.simplifiedOperands.rewrite.outcome.heft ≤ e.simplifiedOperands.heft :=
      heft_rewrite_le (operands_simplifiedOperands fun c _ => c.isFolded_simplify)
    rw [simplify_eq, if_neg (hinert ▸ Bool.false_ne_true), show e.folded? = none from hnode.folded]
    refine Nat.lt_of_le_of_lt (heft_finish_le _) ?_
    by_cases hjoined : e.Operands (Reached fun s => ¬ s.IsUnjoined)
    · -- The operands stay as they are, so it is the node itself.
      have hself : e.simplifiedOperands = e :=
        mapOperands_eq_self ((hops.and hjoined).imp fun _ h => simplify_eq_self h.1 h.2) hnode.kind
      have hnow : e.IsUnjoined := Classical.byContradiction fun h =>
        hunjoined (reached_iff.2 ⟨h, hjoined⟩)
      rw [hself]
      exact heft_rewrite_lt hnow hnode.folded (hops.imp fun _ h => (reached_iff.1 h).1.folded)
    · -- Some operand weighs less when it is simplified.
      refine Nat.lt_of_le_of_lt hrule (heft_mapOperands_lt (fun c => c.heft_simplify_le) fun hle =>
        hjoined ?_)
      exact (ih.and (hops.and hle)).imp fun c h => Classical.byContradiction fun hc =>
        Nat.not_le.2 (h.1 h.2.1 hc) h.2.2

/-- A simplified tree of numbers is the same as its own simplified form exactly when no product in
it is minus one times a power of minus one. -/
theorem same_simplify_simplify_iff {e : Expr Float} (h : e.simplify.Everywhere IsNotNaN) :
    e.simplify.simplify.same e.simplify = true ↔ e.simplify.Reached fun s => ¬ s.IsUnjoined := by
  have hsettled := reached_isSettled_simplify e
  constructor
  · intro hsame
    refine Classical.byContradiction fun hunjoined => ?_
    exact Nat.ne_of_lt (heft_simplify_lt hsettled hunjoined) (heft_of_same hsame)
  · intro hjoined
    rw [simplify_eq_self hsettled hjoined]
    exact same_self h

/-- What a difference between zero and a power of minus one is simplified to is simplified
further. -/
theorem same_simplify_simplify_opposite_power :
    let e : Expr Float := sub (ofInt 0) (pow (ofInt (-1)) (var 'x'))
    Expr.parse "0-(-1)^x" = .ok e ∧ e.simplify.Everywhere IsNotNaN ∧
      e.simplify.simplify.same e.simplify = false := by
  intro e
  have hparse : Expr.parse "0-(-1)^x" = .ok e := by decide +kernel
  have hnumbers : e.simplify.Everywhere IsNotNaN := by decide +kernel
  have hunjoined : ¬ e.simplify.Reached fun s => ¬ s.IsUnjoined := by decide +kernel
  exact ⟨hparse, hnumbers, Bool.eq_false_iff.2 fun hsame =>
    hunjoined ((same_simplify_simplify_iff hnumbers).1 hsame)⟩

end Formula.Expr
