import Formula.Proofs.Expr.Everywhere
import Formula.Proofs.Simplification.Steps

/-!
# What simplification leaves

Every node of a simplified tree is settled (`reached_isSettled_simplify`): no constant is left to
fold, and the rule for the node leaves it as it is. There is one exception. A difference from zero
becomes a product with minus one that is not simplified again, and if the other factor is a power of
minus one, the rule for products would go on and join the two. A tree of settled nodes without this
exception is its own simplified form (`simplify_eq_self`).
-/

namespace Formula

/-- Scalars in which the integers that rules make stay what they are: two and minus one are neither
zero nor one. -/
class Scalar.TellsApart (α : Type) [Scalar α] : Prop where
  two : Scalar.isZero (Scalar.ofInt 2 : α) = false ∧ Scalar.isOne (Scalar.ofInt 2 : α) = false
  minusOne : Scalar.isZero (Scalar.ofInt (-1) : α) = false ∧
    Scalar.isOne (Scalar.ofInt (-1) : α) = false

instance : Scalar.TellsApart Float where
  two := by decide +kernel
  minusOne := by decide +kernel

namespace Expr

variable {α : Type}

/-! ## Nodes that simplification reaches -/

/-- Every node that simplification reaches has a property. It does not look into a pending
derivative. -/
def Reached (P : Expr α → Prop) : Expr α → Prop
  | num value => P (num value)
  | var id => P (var id)
  | const id => P (const id)
  | pending n d order => P (pending n d order)
  | add l r => P (add l r) ∧ l.Reached P ∧ r.Reached P
  | sub l r => P (sub l r) ∧ l.Reached P ∧ r.Reached P
  | mul l r => P (mul l r) ∧ l.Reached P ∧ r.Reached P
  | div l r => P (div l r) ∧ l.Reached P ∧ r.Reached P
  | pow l r => P (pow l r) ∧ l.Reached P ∧ r.Reached P
  | log l r kind => P (log l r kind) ∧ l.Reached P ∧ r.Reached P
  | sin a => P (sin a) ∧ a.Reached P
  | cos a => P (cos a) ∧ a.Reached P
  | tan a => P (tan a) ∧ a.Reached P

instance decidableReached {P : Expr α → Prop} [DecidablePred P] :
    (e : Expr α) → Decidable (e.Reached P)
  | num _ | var _ | const _ | pending .. => inferInstanceAs (Decidable (P _))
  | add l r | sub l r | mul l r | div l r | pow l r | log l r _ =>
    have := decidableReached (P := P) l
    have := decidableReached (P := P) r
    inferInstanceAs (Decidable (_ ∧ _ ∧ _))
  | sin a | cos a | tan a =>
    have := decidableReached (P := P) a
    inferInstanceAs (Decidable (_ ∧ _))

/-- The nodes that simplification reaches are the node itself and those it reaches in the operands.
-/
theorem reached_iff {P : Expr α → Prop} {e : Expr α} :
    e.Reached P ↔ P e ∧ e.Operands (Reached P) := by
  cases e with
  | num | var | const | pending => exact (and_iff_left trivial).symm
  | add | sub | mul | div | pow | log | sin | cos | tan => exact Iff.rfl

/-- Induction over the operands that simplification works on. -/
theorem induction_operands {motive : Expr α → Prop} (h : ∀ e, e.Operands motive → motive e)
    (e : Expr α) :
    motive e := by
  induction e with
  | num | var | const | pending => exact h _ trivial
  | add _ _ ihl ihr | sub _ _ ihl ihr | mul _ _ ihl ihr | div _ _ ihl ihr | pow _ _ ihl ihr
  | log _ _ _ ihl ihr =>
    exact h _ ⟨ihl, ihr⟩
  | sin _ ih | cos _ ih | tan _ ih => exact h _ ih

/-- A weaker property holds of the nodes that are reached too. -/
theorem Reached.imp {P Q : Expr α → Prop} {e : Expr α} (himp : ∀ s, P s → Q s) (h : e.Reached P) :
    e.Reached Q := by
  induction e using induction_operands with
  | h e ih =>
    obtain ⟨hnode, hops⟩ := reached_iff.1 h
    exact reached_iff.2 ⟨himp _ hnode, (ih.and hops).imp fun _ h => h.1 h.2⟩

/-- In what is left as it is only the node itself is reached. -/
theorem reached_of_isInert {P : Expr α → Prop} {e : Expr α} (h : e.isInert = true) (hP : P e) :
    e.Reached P := by
  cases e with
  | num | var | const | pending => exact hP
  | _ => cases h

variable [Scalar α]

/-! ## What a rule settles on -/

/-- A rule that has nothing left to do leaves the node, one of its operands or a number, or it makes
the product with minus one of a difference from zero or the square of a repeated factor. -/
inductive SettlesOn : Expr α → Expr α → Prop
  | node (e) : SettlesOn e e
  | operand {e c} : (∀ P : Expr α → Prop, e.Operands P → P c) → SettlesOn e c
  | number (e n) : SettlesOn e (ofInt n)
  | opposite (l r) : SettlesOn (sub l r) (mul (ofInt (-1)) r)
  | square (l r) : l.isZero = false → l.isOne = false → SettlesOn (mul l r) (pow l (ofInt 2))

variable {e l r : Expr α}

/-- What a rule leaves when nothing is left to do is one of the forms that can be settled on. -/
theorem Rule.settlesOn {s : Expr α} (h : Rule e (.settled s)) : SettlesOn e s := by
  cases h with
  | keep => exact .node _
  | addZeroLeft | mulOneLeft => exact .operand fun _ h => h.2
  | addZeroRight | subZeroRight | mulOneRight | divOne | powToOne => exact .operand fun _ h => h.1
  | subSame | mulZero | divZero | divSame | powToZero | powOfZero | powOfOne | logSame =>
    exact .number _ _
  | subZeroLeft => exact .opposite _ _
  | mulSame hzero hone => exact .square _ _ (Bool.eq_false_iff.2 hzero) (Bool.eq_false_iff.2 hone)

/-- What rewriting leaves when nothing is left to do is one of the forms that can be settled on. -/
theorem settlesOn_of_rewrite {s : Expr α} (h : e.rewrite = .settled s) : SettlesOn e s :=
  Rule.settlesOn (h ▸ rule_rewrite e)

/-! ## Settled nodes -/

/-- Is the node minus one times a power of minus one? -/
def IsUnjoined : Expr α → Prop
  | mul l (pow base _) => l = ofInt (-1) ∧ l.same base = true
  | _ => False

instance isUnjoinedDecidable [DecidableEq α] : DecidablePred (IsUnjoined (α := α))
  | mul l (pow base _) => inferInstanceAs (Decidable (l = ofInt (-1) ∧ l.same base = true))
  | num _ | var _ | const _ | add _ _ | sub _ _ | div _ _ | pow _ _ | log _ _ _ | pending _ _ _
  | sin _ | cos _ | tan _
  | mul _ (num _) | mul _ (var _) | mul _ (const _) | mul _ (add _ _) | mul _ (sub _ _)
  | mul _ (mul _ _) | mul _ (div _ _) | mul _ (log _ _ _) | mul _ (pending _ _ _)
  | mul _ (sin _) | mul _ (cos _) | mul _ (tan _) => isFalse id

/-- Is the node such that simplification has nothing left to do, or else minus one times a power of
minus one? -/
structure IsSettled (e : Expr α) : Prop where
  folded : e.IsFolded
  kind : e.KindAgrees
  rule : e.rewrite = .settled e ∨ e.IsUnjoined

/-- What is left as it is is settled. -/
theorem isSettled_of_isInert (h : e.isInert = true) : e.IsSettled where
  folded := isFolded_of_isInert h
  kind := by
    cases e with
    | log => cases h
    | _ => trivial
  rule := by
    cases e with
    | num | var | const | pending => exact .inl rfl
    | _ => cases h

/-- A node with new operands has a logarithm of the right kind, if it is one. -/
theorem kindAgrees_mapOperands (e : Expr α) (f : (c : Expr α) → c.size < e.size → Expr α) :
    (e.mapOperands f).KindAgrees := by
  cases e with
  | log => exact rfl
  | _ => trivial

/-- A node with settled operands is settled after folding, if the rule for it leaves it as it is. -/
theorem reached_fold (hops : e.Operands (Reached IsSettled)) (hkind : e.KindAgrees)
    (hrule : e.IsFolded → e.rewrite = .settled e ∨ e.IsUnjoined) : e.fold.Reached IsSettled := by
  cases h : e.folded? with
  | some value =>
    have hinert := isInert_of_folded? h
    rw [fold, h, Option.getD_some]
    exact reached_of_isInert hinert (isSettled_of_isInert hinert)
  | none =>
    rw [fold_eq_self h]
    exact reached_iff.2 ⟨⟨h, hkind, hrule h⟩, hops⟩

/-- A settled tree has nothing to fold. -/
theorem fold_eq_self_of_reached (h : e.Reached IsSettled) : e.fold = e :=
  fold_eq_self (reached_iff.1 h).1.folded

/-- Two numbers under a product would be folded. -/
theorem not_isFolded_mul_num (a b : α) : ¬ (mul (num a) (num b)).IsFolded :=
  fun h => Bool.false_ne_true (h.isInert rfl)

variable [Scalar.TellsApart α]

/-- For minus one times anything but a number only the rule for powers of one base is left. -/
theorem rewrite_opposite {r : Expr α} (h : ∀ b, r ≠ num b) :
    r.opposite.rewrite = joinPowers .sum r.opposite (ofInt (-1)) r := by
  obtain ⟨hzero, hone⟩ := Scalar.TellsApart.minusOne (α := α)
  cases r with
  | num b => exact absurd rfl (h b)
  | _ => simp [opposite, ofInt, rewrite, isZero, isOne, same, hzero, hone]

/-- Minus one times anything is settled, unless the powers in it would be joined. -/
theorem settled_opposite {r : Expr α} (h : r.opposite.IsFolded) :
    r.opposite.rewrite = .settled r.opposite ∨ r.opposite.IsUnjoined := by
  have hnum : ∀ b, r ≠ num b := by
    rintro b rfl
    exact not_isFolded_mul_num _ _ h
  rw [rewrite_opposite hnum]
  cases r with
  | pow base exponent =>
    cases hsame : (ofInt (-1)).same base with
    | true => exact .inr ⟨rfl, hsame⟩
    | false =>
      refine .inl (if_pos rfl |>.trans (if_neg ?_))
      rw [show (ofInt (-1) : Expr α).asPower.1.same (pow base exponent).asPower.1 =
        false from hsame]
      exact Bool.false_ne_true
  | _ => exact .inl rfl

/-- A square is settled. -/
theorem settled_square {l : Expr α} (hzero : l.isZero = false) (hone : l.isOne = false) :
    (pow l (ofInt 2)).rewrite = .settled (pow l (ofInt 2)) := by
  have htwo : (ofInt 2 : Expr α).isZero = false ∧ (ofInt 2 : Expr α).isOne = false :=
    Scalar.TellsApart.two
  simp [rewrite, hzero, hone, htwo]

/-! ## Simplified trees -/

variable {node : Expr α}

/-- What a rule settles on has settled nodes after folding, if the operands have. -/
theorem SettlesOn.reached_fold {s : Expr α} (h : SettlesOn node s)
    (hrule : node.rewrite = .settled s) (hops : node.Operands (Reached IsSettled))
    (hkind : node.KindAgrees) : s.fold.Reached IsSettled := by
  cases h with
  | node => exact Expr.reached_fold hops hkind fun _ => .inl hrule
  | operand h =>
    have hs := h _ hops
    rwa [fold_eq_self_of_reached hs]
  | number _ n => exact isSettled_of_isInert rfl
  | opposite l r =>
    exact Expr.reached_fold (e := r.opposite) ⟨isSettled_of_isInert rfl, hops.2⟩ trivial
      settled_opposite
  | square l r hzero hone =>
    exact Expr.reached_fold ⟨hops.1, isSettled_of_isInert rfl⟩ trivial fun _ =>
      .inl (settled_square hzero hone)

/-- Every node that simplification reaches in a simplified tree is settled. -/
theorem reached_isSettled_simplify (e : Expr α) : e.simplify.Reached IsSettled := by
  induction hn : e.weight using Nat.strongRecOn generalizing e with
  | ind n ih =>
    subst hn
    have ih : ∀ c : Expr α, c.weight < e.weight → c.simplify.Reached IsSettled :=
      fun c hc => ih _ hc c rfl
    have hagain : ∀ c : Expr α, c.weight < e.weight → c.simplify.fold.Reached IsSettled := by
      intro c hc
      rw [fold_eq_self_of_reached (ih c hc)]
      exact ih c hc
    rw [simplify_eq]
    split
    next hinert => exact reached_of_isInert hinert (isSettled_of_isInert hinert)
    · cases hfold : e.folded? with
      | some r =>
        have hinert := isInert_of_folded? hfold
        exact reached_of_isInert hinert (isSettled_of_isInert hinert)
      | none =>
        rw [Option.getD_none]
        have hops : e.simplifiedOperands.Operands (Reached IsSettled) :=
          operands_simplifiedOperands fun c hc => ih c (weight_lt_of_size_lt hc)
        have hkind : e.simplifiedOperands.KindAgrees := kindAgrees_mapOperands e _
        have hfits := fits_rewrite e.simplifiedOperands
        have hsize := e.size_simplifiedOperands_le
        have hrank := e.rank_simplifiedOperands
        cases hrule : e.simplifiedOperands.rewrite with
        | settled s => exact (settlesOn_of_rewrite hrule).reached_fold hrule hops hkind
        | again c =>
          rw [hrule] at hfits
          exact hagain c (weight_lt_of_rank_lt (Nat.le_trans hfits.1 hsize) (hrank ▸ hfits.2))
        | factored rest factor =>
          rw [hrule] at hfits
          have hmul := Nat.le_trans (size_mul_le_of_fits hfits rest.size_simplify_le) hsize
          exact hagain _ (weight_lt_of_rank_lt hmul (hrank ▸ hfits.2.2))
        | powered base exponent =>
          rw [hrule] at hfits
          have hpow := Nat.le_trans (size_pow_le_of_fits hfits exponent.size_simplify_le) hsize
          exact hagain _ (weight_lt_of_rank_lt hpow (hrank ▸ hfits.2.2))

omit [Scalar.TellsApart α] in
/-- A node whose operands stay as they are stays as it is. -/
theorem mapOperands_eq_self {e : Expr α} {g : Expr α → Expr α} (h : e.Operands fun c => g c = c)
    (hk : e.KindAgrees) :
    (e.mapOperands fun c _ => g c) = e := by
  cases e with
  | num | var | const | pending => rfl
  | log l r kind =>
    have hkind : kind = l.baseKind := hk
    rw [mapOperands, h.1, h.2, logarithm, hkind]
  | add | sub | mul | div | pow => rw [mapOperands, h.1, h.2]
  | sin | cos | tan => rw [mapOperands, show _ = _ from h]

omit [Scalar.TellsApart α] in
/-- A tree of settled nodes in which no powers would be joined is its own simplified form. -/
theorem simplify_eq_self {e : Expr α} (hsettled : e.Reached IsSettled)
    (hjoined : e.Reached fun s => ¬ s.IsUnjoined) :
    e.simplify = e := by
  induction e using induction_operands with
  | h e ih =>
    obtain ⟨hnode, hops⟩ := reached_iff.1 hsettled
    obtain ⟨hjoinedNode, hjoinedOps⟩ := reached_iff.1 hjoined
    have hsame : e.simplifiedOperands = e :=
      mapOperands_eq_self ((ih.and (hops.and hjoinedOps)).imp fun c h => h.1 h.2.1 h.2.2) hnode.kind
    rw [simplify_eq, hsame, show e.folded? = none from hnode.folded,
      hnode.rule.resolve_right hjoinedNode]
    split
    · rfl
    · exact fold_eq_self hnode.folded

end Expr

end Formula
