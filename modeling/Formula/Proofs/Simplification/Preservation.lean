import Formula.Proofs.Expr.Everywhere
import Formula.Proofs.Simplification.Steps

/-!
# What simplification preserves of every node

Simplification builds numbers, operations and logarithms of the kind of their base, and it builds
nothing else. So what holds of all these, and of every node of a tree, holds of every node of the
simplified tree (`Expr.Everywhere.simplify`).
-/

namespace Formula.Expr

variable {α : Type} [Scalar α] {P : Expr α → Prop} {e l r : Expr α}

variable (hP : HoldsOfBuilt P)
include hP

/-- What holds of the nodes that are built holds of the small integers among them. -/
theorem everywhere_ofInt {n : Int} (hn : n.natAbs ≤ 10) : (ofInt n).Everywhere P :=
  hP.ofInt n hn

/-- What holds of the nodes that are built and throughout an operand holds throughout its factors.
-/
theorem everywhere_asFactors (h : e.Everywhere P) :
    e.asFactors.1.Everywhere P ∧ e.asFactors.2.Everywhere P := by
  cases e with
  | mul l r => exact h.2
  | num | var | const | add | sub | div | pow | log | pending | sin | cos | tan =>
    exact ⟨h, everywhere_ofInt hP (by decide)⟩

/-- What holds of the nodes that are built and throughout an operand holds throughout its base and
exponent. -/
theorem everywhere_asPower (h : e.Everywhere P) :
    e.asPower.1.Everywhere P ∧ e.asPower.2.Everywhere P := by
  cases e with
  | pow l r => exact h.2
  | num | var | const | add | sub | mul | div | log | pending | sin | cos | tan =>
    exact ⟨h, everywhere_ofInt hP (by decide)⟩

/-- What holds of the nodes that are built and throughout two operands holds throughout their sum
and difference. -/
theorem everywhere_apply (op : Linear) (hl : l.Everywhere P) (hr : r.Everywhere P) :
    (op.apply l r).Everywhere P := by
  cases op with
  | sum => exact ⟨hP.add l r, hl, hr⟩
  | difference => exact ⟨hP.sub l r, hl, hr⟩

omit hP in
/-- A shared factor and the rests are among the factors. -/
theorem everywhere_shared? {l r : Expr α × Expr α} {f a b : Expr α}
    (h : shared? l r = some (f, a, b)) (hl : l.1.Everywhere P ∧ l.2.Everywhere P)
    (hr : r.1.Everywhere P ∧ r.2.Everywhere P) :
    f.Everywhere P ∧ a.Everywhere P ∧ b.Everywhere P := by
  obtain ⟨g, rfl | rfl, rfl | rfl, -⟩ := exists_of_shared? h
  · exact ⟨hl.1, hl.2, hr.2⟩
  · exact ⟨hl.1, hl.2, hr.1⟩
  · exact ⟨hl.2, hl.1, hr.2⟩
  · exact ⟨hl.2, hl.1, hr.1⟩

/-- What holds of the nodes that are built and throughout two operands holds throughout their sum
with a shared factor taken out. -/
theorem everywhere_factored (op : Linear) {f a b : Expr α}
    (hs : shared? l.asFactors r.asFactors = some (f, a, b)) (hl : l.Everywhere P)
    (hr : r.Everywhere P) : (mul (op.apply a b) f).Everywhere P := by
  obtain ⟨hf, ha, hb⟩ := everywhere_shared? hs (everywhere_asFactors hP hl)
    (everywhere_asFactors hP hr)
  exact ⟨hP.mul _ _, everywhere_apply hP op ha hb, hf⟩

/-- What holds of the nodes that are built and throughout two operands holds throughout the power
they are put together to. -/
theorem everywhere_powered (op : Linear) (hl : l.Everywhere P) (hr : r.Everywhere P) :
    (pow l.asPower.1 (op.apply l.asPower.2 r.asPower.2)).Everywhere P := by
  obtain ⟨hbase, hexponent⟩ := everywhere_asPower hP hl
  exact ⟨hP.pow _ _, hbase, everywhere_apply hP op hexponent (everywhere_asPower hP hr).2⟩

/-- No rule brings in a node without a property of the nodes that are built. -/
theorem Rule.everywhere {w : Rewriting α} (hrule : Rule e w) (h : e.Everywhere P) :
    w.outcome.Everywhere P := by
  cases hrule with
  | keep => exact h
  | addZeroLeft | mulOneLeft => exact h.2.2
  | addZeroRight | subZeroRight | mulOneRight | divOne | powToOne => exact h.2.1
  | subSame | mulZero | divZero | divSame | powToZero | powOfZero | powOfOne | logSame =>
    exact everywhere_ofInt hP (by decide)
  | addSame => exact ⟨hP.mul _ _, everywhere_ofInt hP (by decide), h.2.1⟩
  | subZeroLeft => exact ⟨hP.mul _ _, everywhere_ofInt hP (by decide), h.2.2⟩
  | mulSame => exact ⟨hP.pow _ _, h.2.1, everywhere_ofInt hP (by decide)⟩
  | addShared _ hs => exact everywhere_factored hP .sum hs h.2.1 h.2.2
  | subShared _ hs => exact everywhere_factored hP .difference hs h.2.1 h.2.2
  | mulPowers => exact everywhere_powered hP .sum h.2.1 h.2.2
  | divPowers => exact everywhere_powered hP .difference h.2.1 h.2.2

/-- Rewriting a node brings in none without a property of the nodes that are built. -/
theorem everywhere_rewrite (h : e.Everywhere P) : e.rewrite.outcome.Everywhere P :=
  (rule_rewrite e).everywhere hP h

/-- What holds of the nodes that are built holds of the value of a constant. -/
theorem everywhere_folded? {value : Expr α} (h : e.folded? = some value) : value.Everywhere P := by
  unfold folded? at h
  split at h
  · cases h
  · split at h
    · obtain rfl := Option.some.inj h
      split
      · exact everywhere_ofInt hP (by decide)
      next hzero => exact hP.folded _ (Bool.eq_false_iff.2 hzero)
    · cases h

/-- What holds of every node of a tree, and of every node that may be built, holds of every node of
the simplified tree. -/
theorem Everywhere.simplify (h : e.Everywhere P) : e.simplify.Everywhere P := by
  have hallows : Allows fun a b : Expr α => a.Everywhere P → b.Everywhere P := {
    refl := fun _ h => h
    trans := fun hab hbc h => hbc (hab h)
    add := fun hl hr h => ⟨hP.add _ _, hl h.2.1, hr h.2.2⟩
    sub := fun hl hr h => ⟨hP.sub _ _, hl h.2.1, hr h.2.2⟩
    mul := fun hl hr h => ⟨hP.mul _ _, hl h.2.1, hr h.2.2⟩
    div := fun hl hr h => ⟨hP.div _ _, hl h.2.1, hr h.2.2⟩
    pow := fun hl hr h => ⟨hP.pow _ _, hl h.2.1, hr h.2.2⟩
    log := fun hl hr h => ⟨hP.logarithm _ _, hl h.2.1, hr h.2.2⟩
    sin := fun ha h => ⟨hP.sin _, ha h.2⟩
    cos := fun ha h => ⟨hP.cos _, ha h.2⟩
    tan := fun ha h => ⟨hP.tan _, ha h.2⟩
    folded := fun hfold _ => everywhere_folded? hP hfold
    rule := fun _ h => everywhere_rewrite hP h }
  exact relates_simplify hallows e h

end Formula.Expr
