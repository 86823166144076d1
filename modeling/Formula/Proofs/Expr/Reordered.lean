import Formula.Expr.Derivative
import Formula.Expr.Same
import Formula.Proofs.Expr.Everywhere
import Formula.Proofs.Scalar

/-!
# Reordered trees

A tree with the operands of some sums and products in the other order, `Expr.Reordered`. Numbers and
kinds of logarithms are as they were, so nothing that is computed from a tree sees the difference:
its value (`Reordered.evaluate_eq`), the questions that rules ask about it, and its derivative up to
the order of operands (`Reordered.derivative`). Trees of numbers are the same as the trees that they
are reordered to (`same_of_reordered`).
-/

namespace Formula.Expr

variable {α : Type}

/-- The second tree is the first one with the operands of some sums and products in the other
order. -/
inductive Reordered : Expr α → Expr α → Prop
  | num (value) : Reordered (num value) (num value)
  | var (id) : Reordered (var id) (var id)
  | const (id) : Reordered (const id) (const id)
  | add {l l' r r'} : Reordered l l' → Reordered r r' → Reordered (add l r) (add l' r')
  | addSwap {l l' r r'} : Reordered l l' → Reordered r r' → Reordered (add l r) (add r' l')
  | sub {l l' r r'} : Reordered l l' → Reordered r r' → Reordered (sub l r) (sub l' r')
  | mul {l l' r r'} : Reordered l l' → Reordered r r' → Reordered (mul l r) (mul l' r')
  | mulSwap {l l' r r'} : Reordered l l' → Reordered r r' → Reordered (mul l r) (mul r' l')
  | div {l l' r r'} : Reordered l l' → Reordered r r' → Reordered (div l r) (div l' r')
  | pow {l l' r r'} : Reordered l l' → Reordered r r' → Reordered (pow l r) (pow l' r')
  | log {l l' r r'} (kind) : Reordered l l' → Reordered r r' →
    Reordered (log l r kind) (log l' r' kind)
  | pending {n n' d d'} (order) :
    Reordered n n' → Reordered d d' → Reordered (pending n d order) (pending n' d' order)
  | sin {a a'} : Reordered a a' → Reordered (sin a) (sin a')
  | cos {a a'} : Reordered a a' → Reordered (cos a) (cos a')
  | tan {a a'} : Reordered a a' → Reordered (tan a) (tan a')

namespace Reordered

/-- A tree is a reordering of itself. -/
theorem refl (e : Expr α) : e.Reordered e := by
  induction e with
  | num | var | const => constructor
  | add _ _ ihl ihr => exact .add ihl ihr
  | mul _ _ ihl ihr => exact .mul ihl ihr
  | sub | div | pow | log | pending | sin | cos | tan => constructor <;> assumption

variable {e e' l l' r r' : Expr α}

/-- A reordering can be undone. -/
theorem symm (h : e.Reordered e') : e'.Reordered e := by
  induction h with
  | num | var | const => exact .refl _
  | add _ _ ihl ihr => exact .add ihl ihr
  | addSwap _ _ ihl ihr => exact .addSwap ihr ihl
  | mul _ _ ihl ihr => exact .mul ihl ihr
  | mulSwap _ _ ihl ihr => exact .mulSwap ihr ihl
  | sub | div | pow | log | pending | sin | cos | tan => constructor <;> assumption

/-- Two reorderings, one after the other, are one. -/
theorem trans {e₁ e₂ e₃ : Expr α} (h : e₁.Reordered e₂) (h' : e₂.Reordered e₃) :
    e₁.Reordered e₃ := by
  induction h generalizing e₃ with
  | num | var | const => exact h'
  | add _ _ ihl ihr =>
    cases h' with
    | add hl hr => exact .add (ihl hl) (ihr hr)
    | addSwap hl hr => exact .addSwap (ihl hl) (ihr hr)
  | addSwap _ _ ihl ihr =>
    cases h' with
    | add hr hl => exact .addSwap (ihl hl) (ihr hr)
    | addSwap hr hl => exact .add (ihl hl) (ihr hr)
  | mul _ _ ihl ihr =>
    cases h' with
    | mul hl hr => exact .mul (ihl hl) (ihr hr)
    | mulSwap hl hr => exact .mulSwap (ihl hl) (ihr hr)
  | mulSwap _ _ ihl ihr =>
    cases h' with
    | mul hr hl => exact .mulSwap (ihl hl) (ihr hr)
    | mulSwap hr hl => exact .mul (ihl hl) (ihr hr)
  | sub _ _ ihl ihr =>
    cases h' with
    | sub hl hr => exact .sub (ihl hl) (ihr hr)
  | div _ _ ihl ihr =>
    cases h' with
    | div hl hr => exact .div (ihl hl) (ihr hr)
  | pow _ _ ihl ihr =>
    cases h' with
    | pow hl hr => exact .pow (ihl hl) (ihr hr)
  | log kind _ _ ihl ihr =>
    cases h' with
    | log _ hl hr => exact .log kind (ihl hl) (ihr hr)
  | pending order _ _ ihl ihr =>
    cases h' with
    | pending _ hn hd => exact .pending order (ihl hn) (ihr hd)
  | sin _ ih =>
    cases h' with
    | sin ha => exact .sin (ih ha)
  | cos _ ih =>
    cases h' with
    | cos ha => exact .cos (ih ha)
  | tan _ ih =>
    cases h' with
    | tan ha => exact .tan (ih ha)

/-- A reordered tree is free of variables when the tree is. -/
theorem isConstant_eq (h : e.Reordered e') : e.isConstant = e'.isConstant := by
  induction h with
  | num | var | const | pending => rfl
  | add _ _ ihl ihr | sub _ _ ihl ihr | mul _ _ ihl ihr | div _ _ ihl ihr | pow _ _ ihl ihr
  | log _ _ _ ihl ihr => rw [isConstant, isConstant, ihl, ihr]
  | addSwap _ _ ihl ihr | mulSwap _ _ ihl ihr =>
    rw [isConstant, isConstant, ihl, ihr, Bool.and_comm]
  | sin _ ih | cos _ ih | tan _ ih => rw [isConstant, isConstant, ih]

/-- A reordered product is a product. -/
theorem isProduct_eq (h : e.Reordered e') : e.isProduct = e'.isProduct := by
  cases h <;> rfl

/-- A reordered power is a power. -/
theorem isPower_eq (h : e.Reordered e') : e.isPower = e'.isPower := by
  cases h <;> rfl

variable [Scalar α]

/-- Zero has no other order. -/
theorem isZero_eq (h : e.Reordered e') : e.isZero = e'.isZero := by
  cases h <;> rfl

/-- One has no other order. -/
theorem isOne_eq (h : e.Reordered e') : e.isOne = e'.isOne := by
  cases h <;> rfl

/-- A reordered base tells the same kind of logarithm. -/
theorem baseKind_eq (h : e.Reordered e') : e.baseKind = e'.baseKind := by
  cases h <;> rfl

/-- Logarithms of reordered operands are reorderings of each other. -/
theorem logarithm (hl : l.Reordered l') (hr : r.Reordered r') :
    (logarithm l r).Reordered (logarithm l' r') := by
  rw [Expr.logarithm, Expr.logarithm, hl.baseKind_eq]
  exact .log _ hl hr

/-- Natural logarithms of reordered arguments are reorderings of each other. -/
theorem ln (h : e.Reordered e') : e.ln.Reordered e'.ln :=
  .logarithm (.refl _) h

/-! ## Values -/

section

omit [Scalar α]

/-- Two results combined have a value when both have one. -/
theorem toOption_map₂ {ε β γ δ : Type} (f : β → γ → δ) (x : Except ε β) (y : Except ε γ) :
    (do return f (← x) (← y) : Except ε δ).toOption = Option.map₂ f x.toOption y.toOption := by
  cases x <;> cases y <;> rfl

/-- A function of a result has a value when the result has one. -/
theorem toOption_map {ε β γ : Type} (f : β → γ) (x : Except ε β) :
    (do return f (← x) : Except ε γ).toOption = x.toOption.map f := by
  cases x <;> rfl

/-- Two steps in a row have a value when the first has one and then the second. -/
theorem toOption_bind {ε β γ : Type} (f : β → Except ε γ) (x : Except ε β) :
    (x >>= f).toOption = x.toOption.bind fun a => (f a).toOption := by
  cases x <;> rfl

end

/-- Reordered trees have the same value, or neither has one. -/
theorem evaluate_eq [Scalar.Commutative α] (h : e.Reordered e') (b : Bindings α) :
    (e.evaluate b).toOption = (e'.evaluate b).toOption := by
  induction h with
  | num | var | const => rfl
  | add _ _ ihl ihr | sub _ _ ihl ihr | mul _ _ ihl ihr | div _ _ ihl ihr | pow _ _ ihl ihr =>
    simp only [evaluate, toOption_map₂, ihl, ihr]
  | addSwap _ _ ihl ihr =>
    simp only [evaluate, toOption_map₂, ihl, ihr]
    exact Option.map₂_comm Scalar.Commutative.add_comm
  | mulSwap _ _ ihl ihr =>
    simp only [evaluate, toOption_map₂, ihl, ihr]
    exact Option.map₂_comm Scalar.Commutative.mul_comm
  | log kind _ _ ihl ihr =>
    simp only [evaluate]
    cases kind with
    | natural | ten => simp only [toOption_map, ihr]
    | general => simp only [toOption_bind, ihl, ihr]
  | pending => rfl
  | sin _ ih | cos _ ih | tan _ ih => simp only [evaluate, toOption_map, ih]

/-- A reordered tree is a constant zero when the tree is one: its value does not depend on the
order. -/
theorem isConstantZero_eq [Scalar.Commutative α] (h : e.Reordered e') :
    e.isConstantZero = e'.isConstantZero := by
  have hvalue : e.value.toOption = e'.value.toOption := h.evaluate_eq {}
  rw [isConstantZero, isConstantZero, h.isConstant_eq]
  congr 1
  cases he : e.value <;> cases he' : e'.value <;> simp_all [Except.toOption]

/-! ## Derivatives -/

/-- Derivatives of powers are reorderings when their parts are. -/
theorem powDerivative [Scalar.Commutative α] {dl dl' dr dr' : Expr α} (hl : l.Reordered l')
    (hr : r.Reordered r') (hdl : dl.Reordered dl') (hdr : dr.Reordered dr') :
    (powDerivative l r dl dr).Reordered (powDerivative l' r' dl' dr') := by
  unfold Expr.powDerivative
  rw [hr.isConstant_eq, hdr.isConstantZero_eq, hdl.isConstantZero_eq]
  split
  · exact .mul (.mul hr hdl) (.pow hl (.sub hr (.refl _)))
  · split
    · exact .mul (.mul hl.ln hdr) (.pow hl hr)
    · exact .mul (.pow hl hr) (.add (.mul hdr hl.ln) (.div (.mul hr hdl) hl))

/-- Derivatives of logarithms are reorderings when their parts are. -/
theorem logDerivative [Scalar.Commutative α] {dl dl' dr dr' : Expr α} (kind : LogBase)
    (hl : l.Reordered l') (hr : r.Reordered r') (hdl : dl.Reordered dl') (hdr : dr.Reordered dr') :
    (logDerivative l r kind dl dr).Reordered (logDerivative l' r' kind dl' dr') := by
  unfold Expr.logDerivative
  rw [hdl.isConstantZero_eq]
  split
  · exact .div hdr hr
  · split
    · exact .div hdr (.mul hr hl.ln)
    · exact .div (.sub (.mul (.div hdr hr) hl.ln) (.mul hr.ln (.div hdl hl))) (.pow hl.ln (.refl _))

/-- Derivatives of reordered trees are reordered. In the product rule the two terms change
places. -/
theorem derivative [Scalar.Commutative α] (v : Char) (h : e.Reordered e') :
    (e.derivative v).Reordered (e'.derivative v) := by
  induction h with
  | num | var | const => exact .refl _
  | add _ _ ihl ihr => exact .add ihl ihr
  | addSwap _ _ ihl ihr => exact .addSwap ihl ihr
  | sub _ _ ihl ihr => exact .sub ihl ihr
  | mul hl hr ihl ihr => exact .add (.mul ihl hr) (.mul hl ihr)
  | mulSwap hl hr ihl ihr => exact .addSwap (.mulSwap ihl hr) (.mulSwap hl ihr)
  | div hl hr ihl ihr => exact .div (.sub (.mul ihl hr) (.mul hl ihr)) (.pow hr (.refl _))
  | pow hl hr ihl ihr => exact .powDerivative hl hr ihl ihr
  | log kind hl hr ihl ihr => exact .logDerivative kind hl hr ihl ihr
  | pending order hn hd _ ihd =>
    simp only [Expr.derivative, ihd.isConstant_eq]
    split
    · exact .pending _ hn hd
    · exact .mul (.pending _ hn hd) (.pending _ hd (.refl _))
  | sin ha ih => exact .mul (.cos ha) ih
  | cos ha ih => exact .mul (.mul (.refl _) (.sin ha)) ih
  | tan ha ih => exact .mul (.pow (.cos ha) (.refl _)) ih

/-! ## Sameness -/

/-- Reordered trees are the same as the same trees. -/
theorem same_eq (h : e.Reordered e') (s : Expr α) : e.same s = e'.same s := by
  induction h generalizing s with
  | num | var | const => rfl
  | add _ _ ihl ihr | sub _ _ ihl ihr | mul _ _ ihl ihr | div _ _ ihl ihr | pow _ _ ihl ihr
  | log _ _ _ ihl ihr | pending _ _ _ ihl ihr =>
    cases s <;> simp only [same, ihl, ihr]
  | addSwap _ _ ihl ihr | mulSwap _ _ ihl ihr =>
    cases s <;> simp only [same, ihl, ihr]
    simp only [Bool.and_comm, Bool.or_comm]
  | sin _ ih | cos _ ih | tan _ ih => cases s <;> simp only [same, ih]

end Reordered

/-- Sameness does not depend on which tree comes first. -/
theorem same_comm [Scalar α] [Scalar.Symmetric α] (a b : Expr α) : a.same b = b.same a := by
  induction a generalizing b with
  | num x =>
    cases b with
    | num y => exact Scalar.Symmetric.same_comm x y
    | _ => rfl
  | var | const => cases b <;> simp only [same, Bool.beq_comm]
  | add _ _ ihl ihr | mul _ _ ihl ihr =>
    cases b <;> simp only [same, ihl, ihr]
    simp only [Bool.and_comm, Bool.or_comm]
  | sub _ _ ihl ihr | div _ _ ihl ihr | pow _ _ ihl ihr | log _ _ _ ihl ihr =>
    cases b <;> simp only [same, ihl, ihr]
  | pending _ _ _ ihl ihr => cases b <;> simp only [same, ihl, ihr, Bool.beq_comm]
  | sin _ ih | cos _ ih | tan _ ih => cases b <;> simp only [same, ih]

/-- Is the node none that hides a difference from sameness: no negative zero, and no logarithm of
another kind than its base tells? -/
structure IsRegular (e : Expr Float) : Prop where
  kind : e.KindAgrees
  number : e.IsNotNegativeZero

/-- What reordering keeps of one node it keeps of every node. -/
theorem Everywhere.reordered {P : Expr Float → Prop} {a b : Expr Float} (h : a.Reordered b)
    (ha : a.Everywhere P) (hP : ∀ {e e' : Expr Float}, e.Reordered e' → P e → P e') :
    b.Everywhere P := by
  induction h with
  | num | var | const => exact ha
  | add hl hr ihl ihr => exact ⟨hP (.add hl hr) ha.1, ihl ha.2.1, ihr ha.2.2⟩
  | addSwap hl hr ihl ihr => exact ⟨hP (.addSwap hl hr) ha.1, ihr ha.2.2, ihl ha.2.1⟩
  | sub hl hr ihl ihr => exact ⟨hP (.sub hl hr) ha.1, ihl ha.2.1, ihr ha.2.2⟩
  | mul hl hr ihl ihr => exact ⟨hP (.mul hl hr) ha.1, ihl ha.2.1, ihr ha.2.2⟩
  | mulSwap hl hr ihl ihr => exact ⟨hP (.mulSwap hl hr) ha.1, ihr ha.2.2, ihl ha.2.1⟩
  | div hl hr ihl ihr => exact ⟨hP (.div hl hr) ha.1, ihl ha.2.1, ihr ha.2.2⟩
  | pow hl hr ihl ihr => exact ⟨hP (.pow hl hr) ha.1, ihl ha.2.1, ihr ha.2.2⟩
  | log kind hl hr ihl ihr => exact ⟨hP (.log kind hl hr) ha.1, ihl ha.2.1, ihr ha.2.2⟩
  | pending order hn hd ihn ihd => exact ⟨hP (.pending order hn hd) ha.1, ihn ha.2.1, ihd ha.2.2⟩
  | sin ha' ih => exact ⟨hP (.sin ha') ha.1, ih ha.2⟩
  | cos ha' ih => exact ⟨hP (.cos ha') ha.1, ih ha.2⟩
  | tan ha' ih => exact ⟨hP (.tan ha') ha.1, ih ha.2⟩

/-- A reordered node is regular when the node is. -/
theorem IsRegular.reordered {a b : Expr Float} (h : a.Reordered b) (ha : a.IsRegular) :
    b.IsRegular := by
  cases h with
  | num => exact ha
  | log kind hbase _ => exact ⟨ha.kind.trans hbase.baseKind_eq, trivial⟩
  | _ => exact ⟨trivial, trivial⟩

/-- A tree of numbers is the same as a reordered one. -/
theorem same_of_reordered {a b : Expr Float} (h : a.Reordered b)
    (hnumbers : a.Everywhere IsNotNaN) :
    a.same b = true := by
  induction h with
  | num => exact Scalar.same_self hnumbers
  | var | const => exact beq_self_eq_true _
  | add _ _ ihl ihr | mul _ _ ihl ihr =>
    simp only [same, ihl hnumbers.2.1, ihr hnumbers.2.2, Bool.and_self, Bool.true_or]
  | addSwap _ _ ihl ihr | mulSwap _ _ ihl ihr =>
    simp only [same, ihl hnumbers.2.1, ihr hnumbers.2.2, Bool.and_self, Bool.or_true]
  | sub _ _ ihl ihr | div _ _ ihl ihr | pow _ _ ihl ihr | log _ _ _ ihl ihr =>
    simp only [same, ihl hnumbers.2.1, ihr hnumbers.2.2, Bool.and_self]
  | pending _ _ _ ihl ihr =>
    simp only [same, ihl hnumbers.2.1, ihr hnumbers.2.2, beq_self_eq_true, Bool.and_self]
  | sin _ ih | cos _ ih | tan _ ih => exact ih hnumbers.2

/-- A tree of numbers is the same as itself. -/
theorem same_self {e : Expr Float} (h : e.Everywhere IsNotNaN) : e.same e = true :=
  same_of_reordered (.refl e) h

end Formula.Expr
