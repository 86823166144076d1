import Formula.Proofs.Expr.Reordered

/-!
# What sameness compares

`Expr.same` decides whether one tree becomes the other when the operands of some of its sums and
products change places (`same_iff_exists_reordered`). After the exchange the trees are compared node
by node, `Alike`: numbers by value, characters and orders exactly, and logarithms whatever their
kinds are. Trees that are alike compare the same with every third tree (`Alike.same_eq`), and so do
trees that are reordered, which is why sameness is transitive although it tries both orders at every
sum and product. In regular trees it overlooks nothing, and the same trees are reordered
(`reordered_of_same`).
-/

namespace Formula

/-- Numeric equality of machine numbers is transitive. -/
theorem Scalar.same_trans {x y z : Float} (hxy : Scalar.same x y = true)
    (hyz : Scalar.same y z = true) :
    Scalar.same x z = true := by
  obtain ⟨hx, -, hxy⟩ := Float.beq_iff_ne_nan_and_eq.1 hxy
  obtain ⟨-, hz, hyz⟩ := Float.beq_iff_ne_nan_and_eq.1 hyz
  refine Float.beq_iff_ne_nan_and_eq.2 ⟨hx, hz, ?_⟩
  -- Equal numbers are equal or the two zeros, and two steps between the zeros come back.
  rcases hxy with rfl | ⟨rfl, rfl⟩ | ⟨rfl, rfl⟩
  · exact hyz
  · rcases hyz with rfl | ⟨-, rfl⟩ | ⟨-, rfl⟩
    · exact .inr (.inl ⟨rfl, rfl⟩)
    · exact .inr (.inl ⟨rfl, rfl⟩)
    · exact .inl rfl
  · rcases hyz with rfl | ⟨-, rfl⟩ | ⟨-, rfl⟩
    · exact .inr (.inr ⟨rfl, rfl⟩)
    · exact .inl rfl
    · exact .inr (.inr ⟨rfl, rfl⟩)

/-- Equal numbers compare alike with every number. -/
theorem Scalar.same_congr {x y : Float} (h : Scalar.same x y = true) (z : Float) :
    Scalar.same x z = Scalar.same y z := by
  have hyx : Scalar.same y x = true := by rw [Scalar.Symmetric.same_comm, h]
  exact Bool.eq_iff_iff.2 ⟨Scalar.same_trans hyx, Scalar.same_trans h⟩

namespace Expr

variable {α : Type} [Scalar α]

/-- The trees have the same nodes in the same places. Numbers agree by value, and kinds of
logarithms need not agree. -/
inductive Alike : Expr α → Expr α → Prop
  | num {x y} : Scalar.same x y = true → Alike (num x) (num y)
  | var (id) : Alike (var id) (var id)
  | const (id) : Alike (const id) (const id)
  | add {l l' r r'} : Alike l l' → Alike r r' → Alike (add l r) (add l' r')
  | sub {l l' r r'} : Alike l l' → Alike r r' → Alike (sub l r) (sub l' r')
  | mul {l l' r r'} : Alike l l' → Alike r r' → Alike (mul l r) (mul l' r')
  | div {l l' r r'} : Alike l l' → Alike r r' → Alike (div l r) (div l' r')
  | pow {l l' r r'} : Alike l l' → Alike r r' → Alike (pow l r) (pow l' r')
  | log {l l' r r'} (kind kind') : Alike l l' → Alike r r' → Alike (log l r kind) (log l' r' kind')
  | pending {n n' d d'} (order) : Alike n n' → Alike d d' →
    Alike (pending n d order) (pending n' d' order)
  | sin {a a'} : Alike a a' → Alike (sin a) (sin a')
  | cos {a a'} : Alike a a' → Alike (cos a) (cos a')
  | tan {a a'} : Alike a a' → Alike (tan a) (tan a')

variable {a b c : Expr α}

/-- Trees that are alike are the same. -/
theorem Alike.same (h : a.Alike b) : a.same b = true := by
  induction h with
  | num h => exact h
  | var | const => exact beq_self_eq_true _
  | add _ _ ihl ihr | mul _ _ ihl ihr =>
    rw [Expr.same, ihl, ihr]
    rfl
  | sub _ _ ihl ihr | div _ _ ihl ihr | pow _ _ ihl ihr | log _ _ _ _ ihl ihr =>
    rw [Expr.same, ihl, ihr]
    rfl
  | pending _ _ _ ihn ihd =>
    rw [Expr.same, ihn, ihd, beq_self_eq_true]
    rfl
  | sin _ ih | cos _ ih | tan _ ih => exact ih

/-- Sameness finds an order of operands in which the trees are alike. -/
theorem exists_reordered_of_same (h : a.same b = true) : ∃ d, a.Reordered d ∧ d.Alike b := by
  replace h := matches_of_same h
  induction h with
  | num h => exact ⟨_, .num _, .num h⟩
  | var => exact ⟨_, .var _, .var _⟩
  | const => exact ⟨_, .const _, .const _⟩
  | add _ _ ihl ihr =>
    obtain ⟨l', hl, hl'⟩ := ihl
    obtain ⟨r', hr, hr'⟩ := ihr
    exact ⟨_, .add hl hr, .add hl' hr'⟩
  | addSwap _ _ ihl ihr =>
    -- The exchange goes into the reordering, so that what remains is alike in place.
    obtain ⟨l', hl, hl'⟩ := ihl
    obtain ⟨r', hr, hr'⟩ := ihr
    exact ⟨_, .addSwap hl hr, .add hr' hl'⟩
  | sub _ _ ihl ihr =>
    obtain ⟨l', hl, hl'⟩ := ihl
    obtain ⟨r', hr, hr'⟩ := ihr
    exact ⟨_, .sub hl hr, .sub hl' hr'⟩
  | mul _ _ ihl ihr =>
    obtain ⟨l', hl, hl'⟩ := ihl
    obtain ⟨r', hr, hr'⟩ := ihr
    exact ⟨_, .mul hl hr, .mul hl' hr'⟩
  | mulSwap _ _ ihl ihr =>
    obtain ⟨l', hl, hl'⟩ := ihl
    obtain ⟨r', hr, hr'⟩ := ihr
    exact ⟨_, .mulSwap hl hr, .mul hr' hl'⟩
  | div _ _ ihl ihr =>
    obtain ⟨l', hl, hl'⟩ := ihl
    obtain ⟨r', hr, hr'⟩ := ihr
    exact ⟨_, .div hl hr, .div hl' hr'⟩
  | pow _ _ ihl ihr =>
    obtain ⟨l', hl, hl'⟩ := ihl
    obtain ⟨r', hr, hr'⟩ := ihr
    exact ⟨_, .pow hl hr, .pow hl' hr'⟩
  | log kind kind' _ _ ihl ihr =>
    obtain ⟨l', hl, hl'⟩ := ihl
    obtain ⟨r', hr, hr'⟩ := ihr
    exact ⟨_, .log kind hl hr, .log kind kind' hl' hr'⟩
  | pending order _ _ ihn ihd =>
    obtain ⟨n', hn, hn'⟩ := ihn
    obtain ⟨d', hd, hd'⟩ := ihd
    exact ⟨_, .pending order hn hd, .pending order hn' hd'⟩
  | sin _ ih =>
    obtain ⟨a', ha, ha'⟩ := ih
    exact ⟨_, .sin ha, .sin ha'⟩
  | cos _ ih =>
    obtain ⟨a', ha, ha'⟩ := ih
    exact ⟨_, .cos ha, .cos ha'⟩
  | tan _ ih =>
    obtain ⟨a', ha, ha'⟩ := ih
    exact ⟨_, .tan ha, .tan ha'⟩

/-- Trees are the same exactly when one is alike a reordering of the other. -/
theorem same_iff_exists_reordered : a.same b = true ↔ ∃ d, a.Reordered d ∧ d.Alike b := by
  constructor
  · exact exists_reordered_of_same
  · rintro ⟨d, hd, halike⟩
    rw [hd.same_eq, halike.same]

/-- Alike trees are the same as the same trees. -/
theorem Alike.same_eq {a b : Expr Float} (h : a.Alike b) (s : Expr Float) :
    a.same s = b.same s := by
  induction h generalizing s with
  | @num x y h =>
    cases s with
    | num z => exact Scalar.same_congr h z
    | _ => rfl
  | var | const => rfl
  | add _ _ ihl ihr | sub _ _ ihl ihr | mul _ _ ihl ihr | div _ _ ihl ihr | pow _ _ ihl ihr
  | log _ _ _ _ ihl ihr
  | pending _ _ _ ihl ihr => cases s <;> simp only [Expr.same, ihl, ihr]
  | sin _ ih | cos _ ih | tan _ ih => cases s <;> simp only [Expr.same, ih]

/-- If sameness has nothing to overlook in them, alike trees are equal. -/
theorem Alike.eq_of_isRegular {a b : Expr Float} (h : a.Alike b) (ha : a.Everywhere IsRegular)
    (hb : b.Everywhere IsRegular) : a = b := by
  induction h with
  | num h => rw [Scalar.eq_of_same h ha.number hb.number]
  | var | const => rfl
  | add _ _ ihl ihr | sub _ _ ihl ihr | mul _ _ ihl ihr | div _ _ ihl ihr | pow _ _ ihl ihr
  | pending _ _ _ ihl ihr =>
    rw [ihl ha.2.1 hb.2.1, ihr ha.2.2 hb.2.2]
  | log _ _ _ _ ihl ihr =>
    have hl := ihl ha.2.1 hb.2.1
    rw [ha.1.kind, hb.1.kind, hl, ihr ha.2.2 hb.2.2]
  | sin _ ih | cos _ ih | tan _ ih => rw [ih ha.2 hb.2]

/-- Regular trees that are the same are reordered. -/
theorem reordered_of_same {a b : Expr Float} (h : a.same b = true) (ha : a.Everywhere IsRegular)
    (hb : b.Everywhere IsRegular) : a.Reordered b := by
  obtain ⟨d, hd, halike⟩ := exists_reordered_of_same h
  rwa [← halike.eq_of_isRegular (ha.reordered hd IsRegular.reordered) hb]

/-- Sameness carries over from one tree to the next. -/
theorem same_trans {a b c : Expr Float} (hab : a.same b = true) (hbc : b.same c = true) :
    a.same c = true := by
  obtain ⟨d, hd, halike⟩ := exists_reordered_of_same hab
  rw [hd.same_eq, halike.same_eq, hbc]

/-- Among trees of numbers, to be the same is to be alike up to the order of the operands of sums
and products. So every tree is the same as itself, whatever is the same as a tree may take its
place, operands of sums and products may change places, and those of differences, quotients and
powers only when they are the same. -/
theorem same_iff_alike_reordered {a b : Expr Float} (c : Expr Float) (ha : a.Everywhere IsNotNaN)
    (hb : b.Everywhere IsNotNaN) :
    (a.same b = true ↔ ∃ d, a.Reordered d ∧ d.Alike b) ∧
      a.same a = true ∧ (a.same b = true → b.same a = true) ∧
      (a.same b = true → b.same c = true → a.same c = true) ∧
      (add a b).same (add b a) = true ∧ (mul a b).same (mul b a) = true ∧
      ((sub a b).same (sub b a) = true → a.same b = true) ∧
      ((div a b).same (div b a) = true → a.same b = true) ∧
      ((pow a b).same (pow b a) = true → a.same b = true) := by
  have hself : a.same a = true := same_self ha
  have hself' : b.same b = true := same_self hb
  have hswap : (a.same b && b.same a || a.same a && b.same b) = true := by
    rw [hself, hself', Bool.and_self, Bool.or_true]
  have hleft : (a.same b && b.same a) = true → a.same b = true :=
    fun h => (Bool.and_eq_true_iff.1 h).1
  refine ⟨same_iff_exists_reordered, hself, fun h => ?_, same_trans, hswap, hswap, hleft,
    hleft, hleft⟩
  rw [same_comm, h]

/-- The two zeros agree, and so do the kinds of a logarithm and both orders of a product inside a
sum. -/
theorem same_iff_alike_reordered_signed_zeros :
    let a : Expr Float := add (num 0) (mul (var 'x') (log (const 'e') (num 2) .natural))
    let b : Expr Float := add (mul (log (const 'e') (num 2) .general) (var 'x')) (num (-0))
    a.Everywhere IsNotNaN ∧ b.Everywhere IsNotNaN ∧ a.same b = true ∧ b.same a = true ∧
      ((sub a b).same (sub b a) = true → a.same b = true) := by
  intro a b
  have ha : a.Everywhere IsNotNaN := by decide +kernel
  have hb : b.Everywhere IsNotNaN := by decide +kernel
  have hzero : Scalar.same (0 : Float) (-0) = true := by decide +kernel
  have hlog : (log (const 'e') (num 2) .natural : Expr Float).Alike
    (log (const 'e') (num 2) .general) :=
    .log .natural .general (.const 'e') (.num (by decide +kernel))
  obtain ⟨hiff, -, hsymm, -, -, -, hsub, -⟩ := same_iff_alike_reordered a ha hb
  have hsame : a.same b = true := hiff.2
    ⟨add (mul (log (const 'e') (num 2) .natural) (var 'x')) (num 0),
      .addSwap (.num 0) (.mulSwap (.var 'x') (.refl _)), .add (.mul hlog (.var 'x')) (.num hzero)⟩
  exact ⟨ha, hb, hsame, hsymm hsame, hsub⟩

end Expr

end Formula
