import Formula.Expr

/-!
# Sameness of expressions

`Expr.same` compares two trees up to the order of the operands of sums and products. Numbers are
compared by value, characters and orders exactly, and the kind of a logarithm is left out, since its
base tells it. `Expr.Matches` lists the pairs of trees that it accepts, node by node, for
inductions.
-/

namespace Formula.Expr

variable {α : Type} [Scalar α]

/-- Are two expressions the same up to swapped operands of sums and products? -/
def same : Expr α → Expr α → Bool
  | num a, num b => Scalar.same a b
  | var a, var b => a == b
  | const a, const b => a == b
  | add l₁ r₁, add l₂ r₂ => (l₁.same l₂ && r₁.same r₂) || (l₁.same r₂ && r₁.same l₂)
  | mul l₁ r₁, mul l₂ r₂ => (l₁.same l₂ && r₁.same r₂) || (l₁.same r₂ && r₁.same l₂)
  | sub l₁ r₁, sub l₂ r₂ => l₁.same l₂ && r₁.same r₂
  | div l₁ r₁, div l₂ r₂ => l₁.same l₂ && r₁.same r₂
  | pow l₁ r₁, pow l₂ r₂ => l₁.same l₂ && r₁.same r₂
  | log l₁ r₁ _, log l₂ r₂ _ => l₁.same l₂ && r₁.same r₂
  | pending n₁ d₁ o₁, pending n₂ d₂ o₂ => o₁ == o₂ && n₁.same n₂ && d₁.same d₂
  | sin a, sin b => a.same b
  | cos a, cos b => a.same b
  | tan a, tan b => a.same b
  | _, _ => false

/-- The second tree is the same as the first: node by node they match, with the operands of some
sums and products in the other order. -/
inductive Matches : Expr α → Expr α → Prop
  | num {x y} : Scalar.same x y = true → Matches (num x) (num y)
  | var (id) : Matches (var id) (var id)
  | const (id) : Matches (const id) (const id)
  | add {l l' r r'} : Matches l l' → Matches r r' → Matches (add l r) (add l' r')
  | addSwap {l l' r r'} : Matches l l' → Matches r r' → Matches (add l r) (add r' l')
  | sub {l l' r r'} : Matches l l' → Matches r r' → Matches (sub l r) (sub l' r')
  | mul {l l' r r'} : Matches l l' → Matches r r' → Matches (mul l r) (mul l' r')
  | mulSwap {l l' r r'} : Matches l l' → Matches r r' → Matches (mul l r) (mul r' l')
  | div {l l' r r'} : Matches l l' → Matches r r' → Matches (div l r) (div l' r')
  | pow {l l' r r'} : Matches l l' → Matches r r' → Matches (pow l r) (pow l' r')
  | log {l l' r r'} (kind kind') : Matches l l' → Matches r r' →
    Matches (log l r kind) (log l' r' kind')
  | pending {n n' d d'} (order) : Matches n n' → Matches d d' →
    Matches (pending n d order) (pending n' d' order)
  | sin {a a'} : Matches a a' → Matches (sin a) (sin a')
  | cos {a a'} : Matches a a' → Matches (cos a) (cos a')
  | tan {a a'} : Matches a a' → Matches (tan a) (tan a')

/-- What the comparison accepts has nodes that match, up to swapped operands. -/
theorem matches_of_same {a b : Expr α} (h : a.same b = true) : a.Matches b := by
  induction a generalizing b with
  | num =>
    cases b <;> simp only [same, Bool.false_eq_true] at h
    exact .num h
  | var =>
    cases b <;> simp only [same, Bool.false_eq_true, beq_iff_eq] at h
    exact h ▸ .var _
  | const =>
    cases b <;> simp only [same, Bool.false_eq_true, beq_iff_eq] at h
    exact h ▸ .const _
  | add l r ihl ihr =>
    cases b <;> simp only [same, Bool.false_eq_true, Bool.or_eq_true, Bool.and_eq_true] at h
    rcases h with ⟨hl, hr⟩ | ⟨hl, hr⟩
    · exact .add (ihl hl) (ihr hr)
    · exact .addSwap (ihl hl) (ihr hr)
  | mul l r ihl ihr =>
    cases b <;> simp only [same, Bool.false_eq_true, Bool.or_eq_true, Bool.and_eq_true] at h
    rcases h with ⟨hl, hr⟩ | ⟨hl, hr⟩
    · exact .mul (ihl hl) (ihr hr)
    · exact .mulSwap (ihl hl) (ihr hr)
  | sub l r ihl ihr | div l r ihl ihr | pow l r ihl ihr | log l r _ ihl ihr =>
    cases b <;> simp only [same, Bool.false_eq_true, Bool.and_eq_true] at h
    constructor
    · exact ihl h.1
    · exact ihr h.2
  | pending n d order ihn ihd =>
    cases b <;> simp only [same, Bool.false_eq_true, Bool.and_eq_true, beq_iff_eq] at h
    exact h.1.1 ▸ .pending order (ihn h.1.2) (ihd h.2)
  | sin a ih | cos a ih | tan a ih =>
    cases b <;> simp only [same, Bool.false_eq_true] at h
    constructor
    exact ih h

end Formula.Expr
