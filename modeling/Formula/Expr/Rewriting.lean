import Formula.Expr.Evaluation
import Formula.Expr.Same

/-!
# Rewriting rules

The rules of simplification for one node whose operands are simplified already. `Expr.rewrite` picks
the rule and says what is left to do, as a `Rewriting`; it does not simplify anything itself.
`Expr.Rule` lists the rules, so that what holds of every rule is shown by cases on it. What is left
to do is never larger than the node, and where it is as large, its topmost operation ranks lower.
This is `fits_rewrite`, and it is why simplification ends.
-/

namespace Formula

/-- What a rule leaves to do. -/
inductive Rewriting (α : Type)
  /-- Nothing: the node becomes this expression. -/
  | settled (e : Expr α)
  /-- The node becomes the simplified form of this expression. -/
  | again (e : Expr α)
  /-- The node becomes the simplified product of the simplified rest and a factor. -/
  | factored (rest factor : Expr α)
  /-- The node becomes the simplified power of a base to the simplified exponent. -/
  | powered (base exponent : Expr α)

namespace Expr

variable {α : Type}

/-- The rank of the topmost operation: sums turn into products, and products and quotients into
powers, and nothing turns back. -/
def rank : Expr α → Nat
  | add .. | sub .. => 2
  | mul .. | div .. => 1
  | _ => 0

/-- A sum or a difference. -/
inductive Linear
  | sum
  | difference

/-- The sum or difference of two operands. -/
def Linear.apply (op : Linear) (l r : Expr α) : Expr α :=
  match op with
  | .sum => add l r
  | .difference => sub l r

@[simp] theorem size_apply (op : Linear) (l r : Expr α) :
    (op.apply l r).size = l.size + r.size + 1 := by
  cases op <;> rfl

variable [Scalar α]

/-- An operand seen as a product of two factors. What is no product is itself times one. -/
def asFactors : Expr α → Expr α × Expr α
  | mul l r => (l, r)
  | e => (e, ofInt 1)

/-- An operand seen as a power. What is no power is itself to the first. -/
def asPower : Expr α → Expr α × Expr α
  | pow base exponent => (base, exponent)
  | e => (e, ofInt 1)

/-- A factor that two products of two factors share, with what remains of each. The first factor of
the left product is tried first, each with the factors of the right one from left to right. -/
def shared? (l r : Expr α × Expr α) : Option (Expr α × Expr α × Expr α) :=
  if l.1.same r.1 then some (l.1, l.2, r.2)
  else if l.1.same r.2 then some (l.1, l.2, r.1)
  else if l.2.same r.1 then some (l.2, l.1, r.2)
  else if l.2.same r.2 then some (l.2, l.1, r.1)
  else none

/-- A shared factor taken out of a sum or difference, if one operand is a product. -/
def factorOut (op : Linear) (l r : Expr α) : Rewriting α :=
  if l.isProduct || r.isProduct then
    match shared? l.asFactors r.asFactors with
    | some (factor, fromLeft, fromRight) => .factored (op.apply fromLeft fromRight) factor
    | none => .settled (op.apply l r)
  else .settled (op.apply l r)

/-- Powers of one base put together, if one operand is a power: exponents add up in a product and
are taken from each other in a quotient. `whole` is the node itself. -/
def joinPowers (op : Linear) (whole l r : Expr α) : Rewriting α :=
  if l.isPower || r.isPower then
    if l.asPower.1.same r.asPower.1 then .powered l.asPower.1 (op.apply l.asPower.2 r.asPower.2)
    else .settled whole
  else .settled whole

/-- The rule for a node with simplified operands. -/
def rewrite : Expr α → Rewriting α
  | add l r =>
    if l.isZero then .settled r
    else if r.isZero then .settled l
    else if l.same r then .again (mul (ofInt 2) l)
    else factorOut .sum l r
  | sub l r =>
    if l.isZero then .settled (mul (ofInt (-1)) r)
    else if r.isZero then .settled l
    else if l.same r then .settled (ofInt 0)
    else factorOut .difference l r
  | mul l r =>
    if l.isZero || r.isZero then .settled (ofInt 0)
    else if l.isOne then .settled r
    else if r.isOne then .settled l
    else if l.same r then .settled (pow l (ofInt 2))
    else joinPowers .sum (mul l r) l r
  | div l r =>
    if l.isZero then .settled (ofInt 0)
    else if r.isOne then .settled l
    else if l.same r then .settled (ofInt 1)
    else joinPowers .difference (div l r) l r
  | pow base exponent =>
    if exponent.isZero then .settled (ofInt 1)
    else if base.isZero then .settled (ofInt 0)
    else if base.isOne then .settled (ofInt 1)
    else if exponent.isOne then .settled base
    else .settled (pow base exponent)
  | log base argument kind =>
    if base.same argument then .settled (ofInt 1) else .settled (log base argument kind)
  | e => .settled e

end Expr

namespace Expr

variable {α : Type} [Scalar α]

/-! ## The rules one by one -/

/-- No rule has anything to do at the node. -/
def HasNoRule : Expr α → Prop
  | add l r | sub l r =>
    ¬ l.isZero = true ∧ ¬ r.isZero = true ∧ ¬ l.same r = true ∧
      ((l.isProduct || r.isProduct) = true → shared? l.asFactors r.asFactors = none)
  | mul l r =>
    ¬ (l.isZero || r.isZero) = true ∧ ¬ l.isOne = true ∧ ¬ r.isOne = true ∧ ¬ l.same r = true ∧
      ((l.isPower || r.isPower) = true → ¬ l.asPower.1.same r.asPower.1 = true)
  | div l r =>
    ¬ l.isZero = true ∧ ¬ r.isOne = true ∧ ¬ l.same r = true ∧
      ((l.isPower || r.isPower) = true → ¬ l.asPower.1.same r.asPower.1 = true)
  | pow base exponent =>
    ¬ exponent.isZero = true ∧ ¬ base.isZero = true ∧ ¬ base.isOne = true ∧ ¬ exponent.isOne = true
  | log base argument _ => ¬ base.same argument = true
  | _ => True

/-- The rules by name, with the conditions under which they apply and what they leave to do. That no
earlier rule applies is told where a later one would be wrong, or have something else to do, without
it. -/
inductive Rule : Expr α → Rewriting α → Prop
  | keep {e} : e.HasNoRule → Rule e (.settled e)
  | addZeroLeft {l r} : l.isZero = true → Rule (add l r) (.settled r)
  | addZeroRight {l r} : r.isZero = true → Rule (add l r) (.settled l)
  | addSame {l r} : l.same r = true → Rule (add l r) (.again (mul (ofInt 2) l))
  | addShared {l r f a b} : (l.isProduct || r.isProduct) = true →
    shared? l.asFactors r.asFactors = some (f, a, b) →
      Rule (add l r) (.factored (add a b) f)
  | subZeroLeft {l r} : l.isZero = true → Rule (sub l r) (.settled (mul (ofInt (-1)) r))
  | subZeroRight {l r} : r.isZero = true → Rule (sub l r) (.settled l)
  | subSame {l r} : l.same r = true → Rule (sub l r) (.settled (ofInt 0))
  | subShared {l r f a b} : (l.isProduct || r.isProduct) = true →
    shared? l.asFactors r.asFactors = some (f, a, b) →
      Rule (sub l r) (.factored (sub a b) f)
  | mulZero {l r} : (l.isZero || r.isZero) = true → Rule (mul l r) (.settled (ofInt 0))
  | mulOneLeft {l r} : l.isOne = true → Rule (mul l r) (.settled r)
  | mulOneRight {l r} : r.isOne = true → Rule (mul l r) (.settled l)
  | mulSame {l r} : ¬ l.isZero = true → ¬ l.isOne = true → l.same r = true →
    Rule (mul l r) (.settled (pow l (ofInt 2)))
  | mulPowers {l r} : (l.isPower || r.isPower) = true → l.asPower.1.same r.asPower.1 = true →
      Rule (mul l r) (.powered l.asPower.1 (add l.asPower.2 r.asPower.2))
  | divZero {l r} : l.isZero = true → Rule (div l r) (.settled (ofInt 0))
  | divOne {l r} : r.isOne = true → Rule (div l r) (.settled l)
  | divSame {l r} : l.same r = true → Rule (div l r) (.settled (ofInt 1))
  | divPowers {l r} : (l.isPower || r.isPower) = true → l.asPower.1.same r.asPower.1 = true →
      Rule (div l r) (.powered l.asPower.1 (sub l.asPower.2 r.asPower.2))
  | powToZero {l r} : r.isZero = true → Rule (pow l r) (.settled (ofInt 1))
  | powOfZero {l r} : ¬ r.isZero = true → l.isZero = true → Rule (pow l r) (.settled (ofInt 0))
  | powOfOne {l r} : l.isOne = true → Rule (pow l r) (.settled (ofInt 1))
  | powToOne {l r} : r.isOne = true → Rule (pow l r) (.settled l)
  | logSame {l r kind} : l.same r = true → Rule (log l r kind) (.settled (ofInt 1))

variable {e l r f a b : Expr α} {w : Rewriting α}

/-- A rule that takes out a shared factor, or none. -/
theorem rule_factorOut (op : Linear)
    (hshared : ∀ {f a b}, (l.isProduct || r.isProduct) = true →
      shared? l.asFactors r.asFactors = some (f, a, b) →
      Rule (op.apply l r) (.factored (op.apply a b) f))
    (hnone : ((l.isProduct || r.isProduct) = true → shared? l.asFactors r.asFactors = none) →
      (op.apply l r).HasNoRule) :
    Rule (op.apply l r) (factorOut op l r) := by
  unfold factorOut
  split
  next hproduct =>
    split
    next hs => exact hshared hproduct hs
    next hs => exact .keep (hnone fun _ => hs)
  next hproduct => exact .keep (hnone fun h => absurd h hproduct)

/-- Joining powers is a rule for two powers of one base, and it leaves any other node as it is. -/
theorem rule_joinPowers (op : Linear)
    (hsame : (l.isPower || r.isPower) = true → l.asPower.1.same r.asPower.1 = true →
      Rule e (.powered l.asPower.1 (op.apply l.asPower.2 r.asPower.2)))
    (hnone : ((l.isPower || r.isPower) = true → ¬ l.asPower.1.same r.asPower.1 = true) →
      e.HasNoRule) :
    Rule e (joinPowers op e l r) := by
  unfold joinPowers
  split
  next hpower =>
    split
    next hs => exact hsame hpower hs
    next hs => exact .keep (hnone fun _ => hs)
  next hpower => exact .keep (hnone fun h => absurd h hpower)

/-- What is done at a node is done by one of the rules. -/
theorem rule_rewrite (e : Expr α) : Rule e e.rewrite := by
  cases e with
  | num | var | const | pending | sin | cos | tan => exact .keep trivial
  | add l r =>
    simp only [rewrite]
    repeat' split
    next hl => exact .addZeroLeft hl
    next hr => exact .addZeroRight hr
    next hsame => exact .addSame hsame
    next hl hr hsame => exact rule_factorOut .sum .addShared fun hnone => ⟨hl, hr, hsame, hnone⟩
  | sub l r =>
    simp only [rewrite]
    repeat' split
    next hl => exact .subZeroLeft hl
    next hr => exact .subZeroRight hr
    next hsame => exact .subSame hsame
    next hl hr hsame =>
      exact rule_factorOut .difference .subShared fun hnone => ⟨hl, hr, hsame, hnone⟩
  | mul l r =>
    simp only [rewrite]
    repeat' split
    next hzero => exact .mulZero hzero
    next hl => exact .mulOneLeft hl
    next hr => exact .mulOneRight hr
    next hzero hl hr hsame =>
      exact .mulSame (fun h => hzero (Bool.or_eq_true_iff.2 (.inl h))) hl hsame
    next hzero hl hr hsame =>
      exact rule_joinPowers .sum .mulPowers fun hnone => ⟨hzero, hl, hr, hsame, hnone⟩
  | div l r =>
    simp only [rewrite]
    repeat' split
    next hl => exact .divZero hl
    next hr => exact .divOne hr
    next hsame => exact .divSame hsame
    next hl hr hsame =>
      exact rule_joinPowers .difference .divPowers fun hnone => ⟨hl, hr, hsame, hnone⟩
  | pow base exponent =>
    simp only [rewrite]
    repeat' split
    next hzero => exact .powToZero hzero
    next hzero hbase => exact .powOfZero hzero hbase
    next hbase => exact .powOfOne hbase
    next hone => exact .powToOne hone
    next hzero hbase hbase' hone => exact .keep ⟨hzero, hbase, hbase', hone⟩
  | log base argument kind =>
    simp only [rewrite]
    split
    next hsame => exact .logSame hsame
    next hsame => exact .keep hsame

/-- A shared factor is a factor of the left product and the same as one of the right product. What
remains of the products is the other factor of each. -/
theorem exists_of_shared? {l r : Expr α × Expr α} (h : shared? l r = some (f, a, b)) :
    ∃ g, (l = (f, a) ∨ l = (a, f)) ∧ (r = (g, b) ∨ r = (b, g)) ∧ f.same g = true := by
  unfold shared? at h
  repeat' split at h
  next hsame =>
    cases h
    exact ⟨r.1, .inl rfl, .inl rfl, hsame⟩
  next hsame =>
    cases h
    exact ⟨r.2, .inl rfl, .inr rfl, hsame⟩
  next hsame =>
    cases h
    exact ⟨r.1, .inr rfl, .inl rfl, hsame⟩
  next hsame =>
    cases h
    exact ⟨r.2, .inr rfl, .inr rfl, hsame⟩
  · cases h

end Expr

/-! ## What is left to do is smaller -/

/-- Is what a rule leaves to do within the bounds of the node? Results are no larger than the node,
and what is simplified again is smaller or of lower rank. -/
def Rewriting.Fits {α : Type} (e : Expr α) : Rewriting α → Prop
  | settled r => r.size ≤ e.size
  | again r => r.size ≤ e.size ∧ r.rank < e.rank
  | factored rest factor => rest.size < e.size ∧ rest.size + factor.size + 1 ≤ e.size ∧ 1 < e.rank
  | powered base exponent =>
    exponent.size < e.size ∧ base.size + exponent.size + 1 ≤ e.size ∧ 0 < e.rank

namespace Expr

variable {α : Type} [Scalar α]

@[simp] theorem size_ofInt (n : Int) : (ofInt n : Expr α).size = 1 := rfl

/-- The two factors of an operand together are at most two nodes larger than it is, and less by what
a product has over them. -/
theorem size_asFactors (e : Expr α) :
    e.asFactors.1.size + e.asFactors.2.size + 1 = e.size + if e.isProduct then 0 else 2 := by
  cases e <;> simp [asFactors, isProduct, size]

/-- Seen as a power, an operand that is none gains a node for the power and one for the exponent. -/
theorem size_asPower (e : Expr α) :
    e.asPower.1.size + e.asPower.2.size + 1 = e.size + if e.isPower then 0 else 2 := by
  cases e <;> simp [asPower, isPower, size]

/-- The factor and the two rests are what the two products consist of, the factor counted once; what
takes part in no rest is a factor of the right product. -/
theorem size_shared? {l r : Expr α × Expr α} {f a b : Expr α} (h : shared? l r = some (f, a, b)) :
    f.size + a.size = l.1.size + l.2.size ∧ b.size < r.1.size + r.2.size := by
  obtain ⟨g, hl, hr, -⟩ := exists_of_shared? h
  have := g.size_pos
  rcases hl with rfl | rfl <;> rcases hr with rfl | rfl <;> dsimp only <;> omega

variable {e l r f a b : Expr α} {w : Rewriting α}

/-- A shared factor, of which one operand is a product, fits with the sum or difference of what
remains. -/
theorem fits_factored (op : Linear) (he : e.size = l.size + r.size + 1) (hrank : 1 < e.rank)
    (hproduct : (l.isProduct || r.isProduct) = true)
    (h : shared? l.asFactors r.asFactors = some (f, a, b)) :
    (Rewriting.factored (op.apply a b) f).Fits e := by
  have hs := size_shared? h
  have hl := size_asFactors l
  have hr := size_asFactors r
  have := f.size_pos
  simp only [Rewriting.Fits, size_apply]
  refine ⟨?_, ?_, hrank⟩ <;>
    rcases Bool.or_eq_true_iff.1 hproduct with h | h <;> simp only [h, if_true] at hl hr <;>
      split at * <;> omega

/-- A base with the sum or difference of its exponents fits, if one operand is a power. -/
theorem fits_powered (op : Linear) (he : e.size = l.size + r.size + 1) (hrank : 0 < e.rank)
    (hpower : (l.isPower || r.isPower) = true) :
    (Rewriting.powered l.asPower.1 (op.apply l.asPower.2 r.asPower.2)).Fits e := by
  have hl := size_asPower l
  have hr := size_asPower r
  have := l.asPower.1.size_pos
  have := r.asPower.1.size_pos
  simp only [Rewriting.Fits, size_apply]
  refine ⟨?_, ?_, hrank⟩ <;>
    rcases Bool.or_eq_true_iff.1 hpower with h | h <;> simp only [h, if_true] at hl hr <;>
      split at * <;> omega

/-- A rule leaves nothing to do that is larger than the node it is for. -/
theorem Rule.fits (h : Rule e w) : w.Fits e := by
  cases h with
  | keep => exact Nat.le_refl _
  | addZeroLeft | mulOneLeft => exact Nat.le_succ_of_le (Nat.le_add_left _ _)
  | addZeroRight | subZeroRight | mulOneRight | divOne | powToOne =>
    exact Nat.le_succ_of_le (Nat.le_add_right _ _)
  | subSame | mulZero | divZero | divSame | powToZero | powOfZero | powOfOne | logSame =>
    exact size_pos _
  | @addSame l r =>
    have := r.size_pos
    simp only [Rewriting.Fits, size, size_ofInt, rank]
    omega
  | @subZeroLeft l r =>
    have := l.size_pos
    simp only [Rewriting.Fits, size, size_ofInt]
    omega
  | @mulSame l r =>
    have := r.size_pos
    simp only [Rewriting.Fits, size, size_ofInt]
    omega
  | addShared hproduct hs => exact fits_factored .sum rfl (Nat.lt_succ_self 1) hproduct hs
  | subShared hproduct hs => exact fits_factored .difference rfl (Nat.lt_succ_self 1) hproduct hs
  | mulPowers hpower => exact fits_powered .sum rfl Nat.one_pos hpower
  | divPowers hpower => exact fits_powered .difference rfl Nat.one_pos hpower

/-- The rule for a node keeps within its bounds. -/
theorem fits_rewrite (e : Expr α) : e.rewrite.Fits e :=
  (rule_rewrite e).fits

end Expr

end Formula
