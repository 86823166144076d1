import Formula.Proofs.Expr.Kinds
import Formula.Proofs.Expr.Sameness
import Formula.Proofs.Simplification.Reduced

/-!
# Simplifying reordered trees

Simplification looks for a shared factor in a fixed order, so which factor it finds could depend on
the order of the operands. It does not: the operands are simplified, and two of them that are not
the same share at most one factor (`Unambiguous`). So the rules do the same with reordered nodes, up
to the order of operands (`reordered_rewrite`), and reordered trees are simplified to reordered
trees (`Reordered.simplify`).
-/

namespace Formula

/-- What is left to do is the same up to the order of operands. -/
inductive Rewriting.Reordered {α : Type} : Rewriting α → Rewriting α → Prop
  | settled {e e'} : e.Reordered e' → Reordered (.settled e) (.settled e')
  | again {e e'} : e.Reordered e' → Reordered (.again e) (.again e')
  | factored {rest rest' factor factor'} :
    rest.Reordered rest' → factor.Reordered factor' →
    Reordered (.factored rest factor) (.factored rest' factor')
  | powered {base base' exponent exponent'} :
    base.Reordered base' → exponent.Reordered exponent' →
      Reordered (.powered base exponent) (.powered base' exponent')

/-- Two reorderings of what is left to do, one after the other, are one. -/
theorem Rewriting.Reordered.trans {α : Type} {w₁ w₂ w₃ : Rewriting α} (h : w₁.Reordered w₂)
    (h' : w₂.Reordered w₃) :
    w₁.Reordered w₃ := by
  cases h with
  | settled he =>
    cases h' with
    | settled he' => exact .settled (he.trans he')
  | again he =>
    cases h' with
    | again he' => exact .again (he.trans he')
  | factored hrest hfactor =>
    cases h' with
    | factored hrest' hfactor' => exact .factored (hrest.trans hrest') (hfactor.trans hfactor')
  | powered hbase hexponent =>
    cases h' with
    | powered hbase' hexponent' => exact .powered (hbase.trans hbase') (hexponent.trans hexponent')

namespace Expr

/-! ## Operands -/

/-- Without negative zeros and with logarithms of the right kinds all nodes are regular. -/
theorem Everywhere.isRegular {e : Expr Float} (hk : e.KindsAgree)
    (hn : e.Everywhere IsNotNegativeZero) :
    e.Everywhere IsRegular :=
  (hk.and hn).imp fun _ h => ⟨h.1, h.2⟩

/-- What is built is regular. -/
theorem holdsOfBuilt_isRegular : HoldsOfBuilt IsRegular where
  ofInt n hn := ⟨trivial, holdsOfBuilt_isNotNegativeZero.ofInt n hn⟩
  folded value hvalue := ⟨trivial, holdsOfBuilt_isNotNegativeZero.folded value hvalue⟩
  euler := ⟨trivial, trivial⟩
  add _ _ := ⟨trivial, trivial⟩
  sub _ _ := ⟨trivial, trivial⟩
  mul _ _ := ⟨trivial, trivial⟩
  div _ _ := ⟨trivial, trivial⟩
  pow _ _ := ⟨trivial, trivial⟩
  logarithm _ _ := ⟨rfl, trivial⟩
  sin _ := ⟨trivial, trivial⟩
  cos _ := ⟨trivial, trivial⟩
  tan _ := ⟨trivial, trivial⟩

/-- Is the tree one that simplification may leave as an operand? -/
structure IsTidy (e : Expr Float) : Prop where
  regular : e.Everywhere IsRegular
  reduced : ¬ e.IsReducible

/-- A regular tree becomes tidy when it is simplified. -/
theorem isTidy_simplify {e : Expr Float} (h : e.Everywhere IsRegular) : e.simplify.IsTidy where
  regular := h.simplify holdsOfBuilt_isRegular
  reduced := (reached_iff.1 (reached_isSettled_simplify e)).1.not_isReducible

variable {a b e e' f g l l' r r' : Expr Float}

/-- Comparing does not see how the two sides are ordered. -/
theorem same_congr (hl : l.Reordered l') (hr : r.Reordered r') : l.same r = l'.same r' := by
  rw [hl.same_eq, same_comm, hr.same_eq, same_comm]

/-- Two trees that are the same as a third one are the same. -/
theorem same_of_same (hl : l.same e = true) (hr : r.same e = true) (hlreg : l.Everywhere IsRegular)
    (hreg : e.Everywhere IsRegular) : l.same r = true := by
  rw [(reordered_of_same hl hlreg hreg).same_eq, same_comm, hr]

/-- A number that is the same as an integer is that integer. -/
theorem eq_ofInt_of_same {n : Int} (hn : n.natAbs ≤ 10) (h : e.same (ofInt n) = true)
    (he : e.Everywhere IsRegular) :
    e = ofInt n := by
  cases reordered_of_same h he (everywhere_ofInt holdsOfBuilt_isRegular hn)
  rfl

/-- A regular zero is the leaf of zero. -/
theorem eq_of_isZero (h : e.isZero = true) (he : e.Everywhere IsRegular) : e = ofInt 0 := by
  cases e with
  | num => exact eq_ofInt_of_same (by decide) h he
  | _ => cases h

/-- A regular one is the leaf of one. -/
theorem eq_of_isOne (h : e.isOne = true) (he : e.Everywhere IsRegular) : e = ofInt 1 := by
  cases e with
  | num => exact eq_ofInt_of_same (by decide) h he
  | _ => cases h

/-- What is the same as one is one. -/
theorem isOne_of_same (h : e.same (ofInt 1) = true) : e.isOne = true := by
  cases e with
  | num => exact h
  | _ => cases h

/-! ## Shared factors -/

/-- The pair consists of a factor and what remains. -/
def Splits (p : Expr Float × Expr Float) (factor rest : Expr Float) : Prop :=
  p = (factor, rest) ∨ p = (rest, factor)

/-- A factor of one product is the same as a factor of another one, with what remains of each. -/
def Shares (l r : Expr Float × Expr Float) (f a g b : Expr Float) : Prop :=
  Splits l f a ∧ Splits r g b ∧ f.same g = true

/-- A factor is shared in both directions. -/
theorem Shares.symm {l r : Expr Float × Expr Float} (h : Shares l r f a g b) : Shares r l g b f a :=
  ⟨h.2.1, h.1, same_comm f g ▸ h.2.2⟩

/-- At most one factor of one product is the same as a factor of another one. -/
structure Unambiguous (l r : Expr Float × Expr Float) : Prop where
  left : ∀ g ∈ [r.1, r.2], ¬ (l.1.same g = true ∧ l.2.same g = true)
  right : ∀ f ∈ [l.1, l.2], ¬ (f.same r.1 = true ∧ f.same r.2 = true)
  straight : ¬ (l.1.same r.1 = true ∧ l.2.same r.2 = true)
  crossed : ¬ (l.1.same r.2 = true ∧ l.2.same r.1 = true)

/-- That no second factor is shared does not depend on the direction. -/
theorem Unambiguous.symm {l r : Expr Float × Expr Float} (h : Unambiguous l r) :
    Unambiguous r l where
  left g hg hboth := h.right g hg (by simpa only [same_comm] using hboth)
  right f hf hboth := h.left f hf (by simpa only [same_comm] using hboth)
  straight hboth := h.straight (by simpa only [same_comm] using hboth)
  crossed hboth := h.crossed (by simpa only [same_comm, and_comm] using hboth)

/-- What the search finds is a shared factor. -/
theorem exists_shares {l r : Expr Float × Expr Float} (h : shared? l r = some (f, a, b)) :
    ∃ g, Shares l r f a g b :=
  exists_of_shared? h

/-- If only one factor is shared, the search finds it. -/
theorem shared?_eq_some {l r : Expr Float × Expr Float} (hu : Unambiguous l r)
    (h : Shares l r f a g b) :
    shared? l r = some (f, a, b) := by
  obtain ⟨rfl | rfl, rfl | rfl, hsame⟩ := h
  · exact if_pos hsame
  · rw [shared?, if_neg fun h => hu.right f (.head _) ⟨h, hsame⟩, if_pos hsame]
  · rw [shared?, if_neg fun h => hu.left g (.head _) ⟨h, hsame⟩,
      if_neg fun h => hu.crossed ⟨h, hsame⟩, if_pos hsame]
  · rw [shared?, if_neg fun h => hu.straight ⟨h, hsame⟩,
      if_neg fun h => hu.left g (.tail _ (.head _)) ⟨h, hsame⟩,
      if_neg fun h => hu.right f (.tail _ (.head _)) ⟨h, hsame⟩, if_pos hsame]

/-- If the search finds nothing, then neither does another one whose shared factors would be shared
here too. -/
theorem shared?_eq_none {l r l' r' : Expr Float × Expr Float} (hu : Unambiguous l r)
    (h : shared? l r = none)
    (hback : ∀ {f a g b}, Shares l' r' f a g b → ∃ f a g b, Shares l r f a g b) :
    shared? l' r' = none := by
  cases hs : shared? l' r' with
  | none => rfl
  | some found =>
    obtain ⟨f, a, b⟩ := found
    obtain ⟨g, hshares⟩ := exists_shares hs
    obtain ⟨f, a, g, b, hshares⟩ := hback hshares
    cases h.symm.trans (shared?_eq_some hu hshares)

/-- What is no product is itself times one. -/
theorem asFactors_of_not_isProduct (h : e.isProduct = false) : e.asFactors = (e, ofInt 1) := by
  cases e with
  | mul => cases h
  | _ => rfl

/-- A tidy product and another tidy expression that is not the same share at most one factor: no
factor of the product is repeated, and none is one. -/
theorem unambiguous_of_product (hl : (mul a b).IsTidy) (hr : r.IsTidy)
    (hne : (mul a b).same r = false) :
    Unambiguous (a, b) r.asFactors := by
  have hregular := everywhere_asFactors holdsOfBuilt_isRegular hr.regular
  have hab : ¬ a.same b = true := fun h => hl.reduced (.inr (.inr (.inr (.inr (.inr h)))))
  have hone : ∀ f ∈ [a, b], ¬ f.same (ofInt 1) = true := by
    simp only [List.mem_cons, List.not_mem_nil, or_false, forall_eq_or_imp, forall_eq]
    exact ⟨fun h => hl.reduced (.inr (.inr (.inr (.inl (isOne_of_same h))))),
      fun h => hl.reduced (.inr (.inr (.inr (.inr (.inl (isOne_of_same h))))))⟩
  have hfactors : ∀ f ∈ [a, b], f.Everywhere IsRegular := by
    simp only [List.mem_cons, List.not_mem_nil, or_false, forall_eq_or_imp, forall_eq]
    exact hl.regular.2
  have hleft : ∀ g ∈ [r.asFactors.1, r.asFactors.2], ¬ (a.same g = true ∧ b.same g = true) := by
    simp only [List.mem_cons, List.not_mem_nil, or_false, forall_eq_or_imp, forall_eq]
    exact ⟨fun h => hab (same_of_same h.1 h.2 hl.regular.2.1 hregular.1),
      fun h => hab (same_of_same h.1 h.2 hl.regular.2.1 hregular.2)⟩
  cases hproduct : r.isProduct with
  | false =>
    rw [asFactors_of_not_isProduct hproduct] at hleft ⊢
    exact {
      left := hleft
      right := fun f hf h => hone f hf h.2
      straight := fun h => hone b (.tail _ (.head _)) h.2
      crossed := fun h => hone a (.head _) h.1 }
  | true =>
    cases r with
    | mul c d =>
      have hcd : ¬ c.same d = true := fun h => hr.reduced (.inr (.inr (.inr (.inr (.inr h)))))
      simp only [same, Bool.or_eq_false_iff, Bool.and_eq_false_imp] at hne
      exact {
        left := hleft
        right := fun f hf h =>
          hcd (same_of_same (same_comm f c ▸ h.1) (same_comm f d ▸ h.2) hr.regular.2.1
            (hfactors f hf))
        straight := fun h => Bool.false_ne_true ((hne.1 h.1).symm.trans h.2)
        crossed := fun h => Bool.false_ne_true ((hne.2 h.1).symm.trans h.2) }
    | _ => cases hproduct

/-- Two different tidy terms, one of them a product, share one factor at most. -/
theorem unambiguous (hl : l.IsTidy) (hr : r.IsTidy) (hproduct : (l.isProduct || r.isProduct) = true)
    (hne : l.same r = false) : Unambiguous l.asFactors r.asFactors := by
  rcases Bool.or_eq_true_iff.1 hproduct with h | h
  · cases l with
    | mul => exact unambiguous_of_product hl hr hne
    | _ => cases h
  · cases r with
    | mul => exact (unambiguous_of_product hr hl (same_comm l _ ▸ hne)).symm
    | _ => cases h

/-- A reordered term splits into a factor and a rest that are reorderings of those before. -/
theorem exists_splits (h : l.Reordered l') (hs : Splits l.asFactors f a) :
    ∃ f' a', Splits l'.asFactors f' a' ∧ f.Reordered f' ∧ a.Reordered a' := by
  cases hproduct : l.isProduct with
  | false =>
    rw [asFactors_of_not_isProduct hproduct] at hs
    rw [asFactors_of_not_isProduct (h.isProduct_eq ▸ hproduct)]
    rcases hs with hs | hs <;> cases hs
    · exact ⟨_, _, .inl rfl, h, .refl _⟩
    · exact ⟨_, _, .inr rfl, .refl _, h⟩
  | true =>
    cases h with
    | mul hl hr =>
      rcases hs with hs | hs <;> cases hs
      · exact ⟨_, _, .inl rfl, hl, hr⟩
      · exact ⟨_, _, .inr rfl, hr, hl⟩
    | mulSwap hl hr =>
      rcases hs with hs | hs <;> cases hs
      · exact ⟨_, _, .inr rfl, hl, hr⟩
      · exact ⟨_, _, .inl rfl, hr, hl⟩
    | _ => cases hproduct

/-- Reordered terms share a factor that is a reordering of the one before. -/
theorem Shares.reordered (h : Shares l.asFactors r.asFactors f a g b) (hl : l.Reordered l')
    (hr : r.Reordered r') :
    ∃ f' a' g' b', Shares l'.asFactors r'.asFactors f' a' g' b' ∧ f.Reordered f' ∧ a.Reordered a' ∧
      g.Reordered g' ∧ b.Reordered b' := by
  obtain ⟨f', a', hl', hf, ha⟩ := exists_splits hl h.1
  obtain ⟨g', b', hr', hg, hb⟩ := exists_splits hr h.2.1
  exact ⟨f', a', g', b', ⟨hl', hr', same_congr hf hg ▸ h.2.2⟩, hf, ha, hg, hb⟩

/-- Sums and differences of reordered operands are reorderings. -/
theorem Reordered.apply (op : Linear) (hl : l.Reordered l') (hr : r.Reordered r') :
    (op.apply l r).Reordered (op.apply l' r') := by
  cases op with
  | sum => exact .add hl hr
  | difference => exact .sub hl hr

/-! ## Rules -/

/-- Taking out a factor does the same with reordered operands. -/
theorem reordered_factorOut (op : Linear) (hl : l.Reordered l') (hr : r.Reordered r')
    (hltidy : l.IsTidy) (hrtidy : r.IsTidy) (hltidy' : l'.IsTidy) (hrtidy' : r'.IsTidy)
    (hne : l.same r = false) :
    (factorOut op l r).Reordered (factorOut op l' r') := by
  unfold factorOut
  rw [← hl.isProduct_eq, ← hr.isProduct_eq]
  split
  next hproduct =>
    have hu := unambiguous hltidy hrtidy hproduct hne
    have hu' := unambiguous hltidy' hrtidy' (hl.isProduct_eq ▸ hr.isProduct_eq ▸ hproduct)
      (same_congr hl hr ▸ hne)
    cases hs : shared? l.asFactors r.asFactors with
    | some found =>
      obtain ⟨f, a, b⟩ := found
      obtain ⟨g, hshares⟩ := exists_shares hs
      obtain ⟨f', a', g', b', hshares', hf, ha, -, hb⟩ := hshares.reordered hl hr
      rw [shared?_eq_some hu' hshares']
      exact .factored (.apply op ha hb) hf
    | none =>
      have hs' : shared? l'.asFactors r'.asFactors = none := shared?_eq_none hu hs fun h => by
        obtain ⟨f, a, g, b, hshares, -⟩ := h.reordered hl.symm hr.symm
        exact ⟨f, a, g, b, hshares⟩
      rw [hs']
      exact .settled (.apply op hl hr)
  · exact .settled (.apply op hl hr)

/-- Two terms share the same factor in either order. -/
theorem reordered_factorOut_swap (hl : l.IsTidy) (hr : r.IsTidy) (hne : l.same r = false) :
    (factorOut .sum l r).Reordered (factorOut .sum r l) := by
  unfold factorOut
  rw [Bool.or_comm r.isProduct]
  split
  next hproduct =>
    have hu := unambiguous hl hr hproduct hne
    cases hs : shared? l.asFactors r.asFactors with
    | some found =>
      obtain ⟨f, a, b⟩ := found
      obtain ⟨g, hshares⟩ := exists_shares hs
      have hs' := shared?_eq_some hu.symm hshares.symm
      have hf := (everywhere_shared? hs (everywhere_asFactors holdsOfBuilt_isRegular hl.regular)
        (everywhere_asFactors holdsOfBuilt_isRegular hr.regular)).1
      have hg := (everywhere_shared? hs' (everywhere_asFactors holdsOfBuilt_isRegular hr.regular)
        (everywhere_asFactors holdsOfBuilt_isRegular hl.regular)).1
      rw [hs']
      exact .factored (.addSwap (.refl a) (.refl b)) (reordered_of_same hshares.2.2 hf hg)
    | none =>
      rw [shared?_eq_none hu hs fun h => ⟨_, _, _, _, h.symm⟩]
      exact .settled (.addSwap (.refl l) (.refl r))
  · exact .settled (.addSwap (.refl l) (.refl r))

/-- Seen as powers, reordered operands have reordered bases and exponents. -/
theorem Reordered.asPower (h : l.Reordered l') :
    l.asPower.1.Reordered l'.asPower.1 ∧ l.asPower.2.Reordered l'.asPower.2 := by
  cases h with
  | pow hbase hexponent => exact ⟨hbase, hexponent⟩
  | num | var | const => exact ⟨.refl _, .refl _⟩
  | add hl hr => exact ⟨.add hl hr, .refl _⟩
  | addSwap hl hr => exact ⟨.addSwap hl hr, .refl _⟩
  | sub hl hr => exact ⟨.sub hl hr, .refl _⟩
  | mul hl hr => exact ⟨.mul hl hr, .refl _⟩
  | mulSwap hl hr => exact ⟨.mulSwap hl hr, .refl _⟩
  | div hl hr => exact ⟨.div hl hr, .refl _⟩
  | log kind hl hr => exact ⟨.log kind hl hr, .refl _⟩
  | pending order hn hd => exact ⟨.pending order hn hd, .refl _⟩
  | sin ha => exact ⟨.sin ha, .refl _⟩
  | cos ha => exact ⟨.cos ha, .refl _⟩
  | tan ha => exact ⟨.tan ha, .refl _⟩

/-- Putting powers together does the same with reordered operands. -/
theorem reordered_joinPowers (op : Linear) (he : e.Reordered e') (hl : l.Reordered l')
    (hr : r.Reordered r') :
    (joinPowers op e l r).Reordered (joinPowers op e' l' r') := by
  unfold joinPowers
  rw [← hl.isPower_eq, ← hr.isPower_eq, ← same_congr hl.asPower.1 hr.asPower.1]
  repeat' split
  · exact .powered hl.asPower.1 (.apply op hl.asPower.2 hr.asPower.2)
  · exact .settled he
  · exact .settled he

/-- Putting powers together does the same with swapped factors. -/
theorem reordered_joinPowers_swap (hl : l.Everywhere IsRegular) (hr : r.Everywhere IsRegular) :
    (joinPowers .sum (mul l r) l r).Reordered (joinPowers .sum (mul r l) r l) := by
  unfold joinPowers
  rw [Bool.or_comm r.isPower, same_comm r.asPower.1]
  repeat' split
  next hsame =>
    have hbase := reordered_of_same hsame (everywhere_asPower holdsOfBuilt_isRegular hl).1
      (everywhere_asPower holdsOfBuilt_isRegular hr).1
    exact .powered hbase (.addSwap (.refl _) (.refl _))
  · exact .settled (.mulSwap (.refl l) (.refl r))
  · exact .settled (.mulSwap (.refl l) (.refl r))

/-- The rule for a sum does the same with swapped operands. -/
theorem reordered_rewrite_add_swap (hl : l.IsTidy) (hr : r.IsTidy) :
    (add l r).rewrite.Reordered (add r l).rewrite := by
  simp only [rewrite]
  rw [same_comm r]
  cases hlzero : l.isZero <;> cases hrzero : r.isZero
  · simp only [Bool.false_eq_true, if_false]
    split
    next hsame => exact .again (.mul (.refl _) (reordered_of_same hsame hl.regular hr.regular))
    next hne => exact reordered_factorOut_swap hl hr (Bool.eq_false_iff.2 hne)
  · exact .settled (.refl l)
  · exact .settled (.refl r)
  · obtain rfl := eq_of_isZero hlzero hl.regular
    obtain rfl := eq_of_isZero hrzero hr.regular
    exact .settled (.refl _)

/-- The rule for a product does the same with swapped factors. -/
theorem reordered_rewrite_mul_swap (hl : l.IsTidy) (hr : r.IsTidy) :
    (mul l r).rewrite.Reordered (mul r l).rewrite := by
  simp only [rewrite]
  rw [same_comm r, Bool.or_comm r.isZero]
  split
  · exact .settled (.refl _)
  · cases hlone : l.isOne <;> cases hrone : r.isOne
    · simp only [Bool.false_eq_true, if_false]
      split
      next hsame => exact .settled (.pow (reordered_of_same hsame hl.regular hr.regular) (.refl _))
      · exact reordered_joinPowers_swap hl.regular hr.regular
    · exact .settled (.refl l)
    · exact .settled (.refl r)
    · obtain rfl := eq_of_isOne hlone hl.regular
      obtain rfl := eq_of_isOne hrone hr.regular
      exact .settled (.refl _)

/-- The rule for a sum does the same with reordered operands. -/
theorem reordered_rewrite_add (hl : l.Reordered l') (hr : r.Reordered r')
    (htidy : l.IsTidy ∧ r.IsTidy) (htidy' : l'.IsTidy ∧ r'.IsTidy) :
    (add l r).rewrite.Reordered (add l' r').rewrite := by
  simp only [rewrite]
  rw [← hl.isZero_eq, ← hr.isZero_eq, ← same_congr hl hr]
  repeat' split
  · exact .settled hr
  · exact .settled hl
  · exact .again (.mul (.refl _) hl)
  next hne =>
    exact reordered_factorOut .sum hl hr htidy.1 htidy.2 htidy'.1 htidy'.2 (Bool.eq_false_iff.2 hne)

/-- The rule for a product does the same with reordered factors. -/
theorem reordered_rewrite_mul (hl : l.Reordered l') (hr : r.Reordered r') :
    (mul l r).rewrite.Reordered (mul l' r').rewrite := by
  simp only [rewrite]
  rw [← hl.isZero_eq, ← hr.isZero_eq, ← hl.isOne_eq, ← hr.isOne_eq, ← same_congr hl hr]
  repeat' split
  · exact .settled (.refl _)
  · exact .settled hr
  · exact .settled hl
  · exact .settled (.pow hl (.refl _))
  · exact reordered_joinPowers .sum (.mul hl hr) hl hr

/-- The rules do the same with reordered nodes, up to the order of operands. -/
theorem reordered_rewrite (h : e.Reordered e') (htidy : e.Operands IsTidy)
    (htidy' : e'.Operands IsTidy) :
    e.rewrite.Reordered e'.rewrite := by
  cases h with
  | num | var | const => exact .settled (.refl _)
  | add hl hr => exact reordered_rewrite_add hl hr htidy htidy'
  | addSwap hl hr =>
    exact (reordered_rewrite_add hl hr htidy htidy'.symm).trans
      (reordered_rewrite_add_swap htidy'.2 htidy'.1)
  | mul hl hr => exact reordered_rewrite_mul hl hr
  | mulSwap hl hr =>
    exact (reordered_rewrite_mul hl hr).trans (reordered_rewrite_mul_swap htidy'.2 htidy'.1)
  | sub hl hr =>
    simp only [rewrite]
    rw [← hl.isZero_eq, ← hr.isZero_eq, ← same_congr hl hr]
    repeat' split
    · exact .settled (.mul (.refl _) hr)
    · exact .settled hl
    · exact .settled (.refl _)
    next hne =>
      exact reordered_factorOut .difference hl hr htidy.1 htidy.2 htidy'.1 htidy'.2
        (Bool.eq_false_iff.2 hne)
  | div hl hr =>
    simp only [rewrite]
    rw [← hl.isZero_eq, ← hr.isOne_eq, ← same_congr hl hr]
    repeat' split
    · exact .settled (.refl _)
    · exact .settled hl
    · exact .settled (.refl _)
    · exact reordered_joinPowers .difference (.div hl hr) hl hr
  | pow hbase hexponent =>
    simp only [rewrite]
    rw [← hbase.isZero_eq, ← hbase.isOne_eq, ← hexponent.isZero_eq, ← hexponent.isOne_eq]
    repeat' split
    · exact .settled (.refl _)
    · exact .settled (.refl _)
    · exact .settled (.refl _)
    · exact .settled hbase
    · exact .settled (.pow hbase hexponent)
  | log kind hbase hargument =>
    simp only [rewrite]
    rw [← same_congr hbase hargument]
    split
    · exact .settled (.refl _)
    · exact .settled (.log kind hbase hargument)
  | pending order hn hd => exact .settled (.pending order hn hd)
  | sin ha => exact .settled (.sin ha)
  | cos ha => exact .settled (.cos ha)
  | tan ha => exact .settled (.tan ha)

/-! ## Simplified forms -/

/-- A reordered tree is left as it is when the tree is. -/
theorem Reordered.isInert_eq (h : e.Reordered e') : e.isInert = e'.isInert := by
  cases h <;> rfl

/-- Reordered expressions are folded into the same number. -/
theorem Reordered.folded?_eq (h : e.Reordered e') : e.folded? = e'.folded? := by
  have hvalue : e.value.toOption = e'.value.toOption := h.evaluate_eq {}
  unfold folded?
  rw [h.isInert_eq, h.isConstant_eq]
  cases hv : e.value <;> cases hv' : e'.value <;> simp_all [Except.toOption]

/-- Folding does the same with reordered trees. -/
theorem Reordered.fold (h : e.Reordered e') : e.fold.Reordered e'.fold := by
  rw [Expr.fold, Expr.fold, ← h.folded?_eq]
  cases e.folded? with
  | none => exact h
  | some value => exact .refl value

/-- The simplified operands of a regular tree are tidy. -/
theorem operands_isTidy (h : e.Everywhere IsRegular) : e.simplifiedOperands.Operands IsTidy := by
  cases e with
  | num | var | const | pending => trivial
  | add | sub | mul | div | pow | log => exact ⟨isTidy_simplify h.2.1, isTidy_simplify h.2.2⟩
  | sin | cos | tan => exact isTidy_simplify h.2

/-- A regular tree stays so when its operands are simplified. -/
theorem Everywhere.simplifiedOperands (h : e.Everywhere IsRegular) :
    e.simplifiedOperands.Everywhere IsRegular := by
  cases e with
  | num | var | const | pending => exact h
  | add | sub | mul | div | pow =>
    exact ⟨⟨trivial, trivial⟩, h.2.1.simplify holdsOfBuilt_isRegular,
      h.2.2.simplify holdsOfBuilt_isRegular⟩
  | log =>
    exact ⟨⟨rfl, trivial⟩, h.2.1.simplify holdsOfBuilt_isRegular,
      h.2.2.simplify holdsOfBuilt_isRegular⟩
  | sin | cos | tan => exact ⟨⟨trivial, trivial⟩, h.2.simplify holdsOfBuilt_isRegular⟩

/-- Simplification does the same with reordered trees up to the order of operands, if the first one
is below a weight. The induction hypothesis of `Reordered.simplify`. -/
def SimplifiesAlike (weight : Nat) : Prop :=
  ∀ c c' : Expr Float, c.weight < weight → c.Reordered c' → c.Everywhere IsRegular →
    c'.Everywhere IsRegular → c.simplify.Reordered c'.simplify

/-- By the induction hypothesis, simplified operands of reordered nodes are reorderings. -/
theorem SimplifiesAlike.operands (ih : SimplifiesAlike e.weight) (h : e.Reordered e')
    (he : e.Everywhere IsRegular) (he' : e'.Everywhere IsRegular) :
    e.simplifiedOperands.Reordered e'.simplifiedOperands := by
  have hop : ∀ {c c' : Expr Float}, c.size < e.size → c.Reordered c' → c.Everywhere IsRegular →
      c'.Everywhere IsRegular → c.simplify.Reordered c'.simplify :=
    fun hc => ih _ _ (weight_lt_of_size_lt hc)
  cases h with
  | num | var | const => exact .refl _
  | pending order hn hd => exact .pending order hn hd
  | add hl hr =>
    exact .add (hop (size_left_lt _ _) hl he.2.1 he'.2.1)
      (hop (size_right_lt _ _) hr he.2.2 he'.2.2)
  | addSwap hl hr =>
    exact .addSwap (hop (size_left_lt _ _) hl he.2.1 he'.2.2)
      (hop (size_right_lt _ _) hr he.2.2 he'.2.1)
  | sub hl hr =>
    exact .sub (hop (size_left_lt _ _) hl he.2.1 he'.2.1)
      (hop (size_right_lt _ _) hr he.2.2 he'.2.2)
  | mul hl hr =>
    exact .mul (hop (size_left_lt _ _) hl he.2.1 he'.2.1)
      (hop (size_right_lt _ _) hr he.2.2 he'.2.2)
  | mulSwap hl hr =>
    exact .mulSwap (hop (size_left_lt _ _) hl he.2.1 he'.2.2)
      (hop (size_right_lt _ _) hr he.2.2 he'.2.1)
  | div hl hr =>
    exact .div (hop (size_left_lt _ _) hl he.2.1 he'.2.1)
      (hop (size_right_lt _ _) hr he.2.2 he'.2.2)
  | pow hl hr =>
    exact .pow (hop (size_left_lt _ _) hl he.2.1 he'.2.1)
      (hop (size_right_lt _ _) hr he.2.2 he'.2.2)
  | log _ hl hr =>
    exact .logarithm (hop (size_left_lt _ _) hl he.2.1 he'.2.1)
      (hop (size_right_lt _ _) hr he.2.2 he'.2.2)
  | sin ha => exact .sin (hop (Nat.lt_succ_self _) ha he.2 he'.2)
  | cos ha => exact .cos (hop (Nat.lt_succ_self _) ha he.2 he'.2)
  | tan ha => exact .tan (hop (Nat.lt_succ_self _) ha he.2 he'.2)

/-- By the induction hypothesis, what is left to do comes to the same up to order. -/
theorem SimplifiesAlike.finish {node : Expr Float} {w w' : Rewriting Float}
    (ih : SimplifiesAlike e.weight) (hsize : node.size ≤ e.size) (hrank : node.rank = e.rank)
    (hfits : w.Fits node) (h : w.Reordered w') (hw : w.outcome.Everywhere IsRegular)
    (hw' : w'.outcome.Everywhere IsRegular) :
    w.finish.Reordered w'.finish := by
  cases h with
  | settled he => exact he.fold
  | again he =>
    exact (ih _ _ (weight_lt_of_rank_lt (Nat.le_trans hfits.1 hsize) (hrank ▸ hfits.2)) he
      hw hw').fold
  | @factored rest rest' factor factor' hrest hfactor =>
    have hsimplified := ih rest rest' (weight_lt_of_size_lt (Nat.lt_of_lt_of_le hfits.1 hsize))
      hrest hw.2.1 hw'.2.1
    have hmul := Nat.le_trans (size_mul_le_of_fits hfits rest.size_simplify_le) hsize
    have hproduct := ih (mul rest.simplify factor) (mul rest'.simplify factor')
      (weight_lt_of_rank_lt hmul (hrank ▸ hfits.2.2)) (.mul hsimplified hfactor)
      ⟨⟨trivial, trivial⟩, hw.2.1.simplify holdsOfBuilt_isRegular, hw.2.2⟩
      ⟨⟨trivial, trivial⟩, hw'.2.1.simplify holdsOfBuilt_isRegular, hw'.2.2⟩
    exact hproduct.fold
  | @powered base base' exponent exponent' hbase hexponent =>
    have hsimplified :=
      ih exponent exponent' (weight_lt_of_size_lt (Nat.lt_of_lt_of_le hfits.1 hsize)) hexponent
      hw.2.2 hw'.2.2
    have hpow := Nat.le_trans (size_pow_le_of_fits hfits exponent.size_simplify_le) hsize
    have hpower := ih (pow base exponent.simplify) (pow base' exponent'.simplify)
      (weight_lt_of_rank_lt hpow (hrank ▸ hfits.2.2)) (.pow hbase hsimplified)
      ⟨⟨trivial, trivial⟩, hw.2.1, hw.2.2.simplify holdsOfBuilt_isRegular⟩
      ⟨⟨trivial, trivial⟩, hw'.2.1, hw'.2.2.simplify holdsOfBuilt_isRegular⟩
    exact hpower.fold

/-- Reordered trees are simplified to reordered trees. -/
theorem Reordered.simplify (h : e.Reordered e') (he : e.Everywhere IsRegular)
    (he' : e'.Everywhere IsRegular) :
    e.simplify.Reordered e'.simplify := by
  induction hn : e.weight using Nat.strongRecOn generalizing e e' with
  | ind n ih =>
    subst hn
    have ih : SimplifiesAlike e.weight := fun c c' hc h hreg hreg' => ih _ hc h hreg hreg' rfl
    rw [simplify_eq, simplify_eq, ← h.isInert_eq, ← h.folded?_eq]
    split
    · exact h
    · cases e.folded? with
      | some value => exact .refl value
      | none =>
        have hoperands := ih.operands h he he'
        have hrule := reordered_rewrite hoperands (operands_isTidy he) (operands_isTidy he')
        exact ih.finish e.size_simplifiedOperands_le e.rank_simplifiedOperands
          (fits_rewrite _) hrule
          (everywhere_rewrite holdsOfBuilt_isRegular he.simplifiedOperands)
          (everywhere_rewrite holdsOfBuilt_isRegular he'.simplifiedOperands)

/-! ## Answers -/

/-- Nothing that is computed from the trees tells them apart: they have the same value or neither
has one, and their derivatives are the same, as are their simplified forms unless one of these holds
a number that is none. -/
structure AnswersAgree (a b : Expr Float) : Prop where
  evaluate : ∀ s : Bindings Float, (a.evaluate s).toOption = (b.evaluate s).toOption
  derivative : ∀ v, (a.derivative v).same (b.derivative v) = true
  simplify : a.simplify.Everywhere IsNotNaN → b.simplify.Everywhere IsNotNaN →
    a.simplify.same b.simplify = true

/-- Nothing that is computed tells reordered regular trees without undefined numbers apart. -/
theorem Reordered.answersAgree (h : a.Reordered b) (hregular : a.Everywhere IsRegular)
    (hnumbers : a.Everywhere IsNotNaN) : a.AnswersAgree b where
  evaluate := h.evaluate_eq
  derivative v := by
    have hderivative : (a.derivative v).Everywhere IsNotNaN :=
      hnumbers.derivative holdsOfOperations_isNotNaN trivial fun _ _ _ => trivial
    exact same_of_reordered (h.derivative v) hderivative
  simplify hsimplify _ :=
    same_of_reordered (h.simplify hregular (hregular.reordered h fun h => IsRegular.reordered h))
      hsimplify

/-- Trees that are the same cannot be told apart by what is computed from them, and neither can a
tree and the same tree with operands of sums and products exchanged. -/
theorem answersAgree_of_same {a b : Expr Float} (h : a.same b = true) (ha : a.Everywhere IsNotNaN)
    (ha₀ : a.Everywhere IsNotNegativeZero) (hka : a.KindsAgree)
    (hb₀ : b.Everywhere IsNotNegativeZero) (hkb : b.KindsAgree) :
    a.AnswersAgree b ∧ ∀ c, a.Reordered c → a.AnswersAgree c := by
  have hregular := Everywhere.isRegular hka ha₀
  have hreordered := reordered_of_same h hregular (.isRegular hkb hb₀)
  exact ⟨hreordered.answersAgree hregular ha, fun c hc => hc.answersAgree hregular ha⟩

/-- Two sums of products with a common factor, in the other order at every operation. -/
theorem answersAgree_of_same_exchanged_products :
    let lg : Expr Float := log (num 10) (var 'x') .ten
    let a : Expr Float := add (mul (var 'y') lg) (mul lg (num 0.5))
    let b : Expr Float := add (mul (num 0.5) lg) (mul lg (var 'y'))
    a.same b = true ∧ a.Everywhere IsNotNaN ∧ a.Everywhere IsNotNegativeZero ∧ a.KindsAgree ∧
      b.Everywhere IsNotNegativeZero ∧ b.KindsAgree ∧ a.AnswersAgree b ∧ ∀ c, a.Reordered c →
      a.AnswersAgree c := by
  intro lg a b
  have hten : (num 10 : Expr Float).baseKind = .ten := by decide +kernel
  have hlg : lg.KindsAgree := ⟨hten.symm, trivial, trivial⟩
  have hka : a.KindsAgree := ⟨trivial, ⟨trivial, trivial, hlg⟩, trivial, hlg, trivial⟩
  have hkb : b.KindsAgree := ⟨trivial, ⟨trivial, trivial, hlg⟩, trivial, hlg, trivial⟩
  have hsame : a.same b = true := by decide +kernel
  have ha : a.Everywhere IsNotNaN := by decide +kernel
  have ha₀ : a.Everywhere IsNotNegativeZero := by decide +kernel
  have hb₀ : b.Everywhere IsNotNegativeZero := by decide +kernel
  exact ⟨hsame, ha, ha₀, hka, hb₀, hkb, answersAgree_of_same hsame ha ha₀ hka hb₀ hkb⟩

end Expr
end Formula
