import Formula.Proofs.Exact.Value
import Formula.Proofs.Machine.Value
import Formula.Proofs.Writing.Legibility
import Formula.Proofs.Writing.RoundTrip

/-!
# Written formulas keep their meaning

The text of a formula in `x`, `y` and `z` need not read as the formula itself: factors change
places, a row of letters is taken together, and a minus sign may go to a whole row. What the formula
means in exact arithmetic stays the same, in either way of writing (`exists_parse_write`). An
`Interpretation` reads sums, products and signs as those of a commutative ring, and everything else
as any functions on it.
-/

namespace Formula

/-- A reading of formulas in a commutative ring. The number one and the opposite of a number are
read as such; the other operations are any functions. -/
structure Interpretation (R : Type*) [CommRing R] where
  num : Float → R
  num_one : num 1 = 1
  num_neg : ∀ v, num (-v) = -num v
  euler : R
  div : R → R → R
  pow : R → R → R
  ln : R → R
  log10 : R → R
  /-- The logarithm to a base, which comes first. -/
  log : R → R → R
  sin : R → R
  cos : R → R
  tan : R → R
  /-- A pending derivative of some order. -/
  pending : R → R → Nat → R

/-- Machine numbers as the real numbers that they are, with the operations of exact scalars. -/
noncomputable def Interpretation.real : Interpretation ℝ where
  num v := Machine.value v
  num_one := by rw [Machine.value_one, Rat.cast_one]
  num_neg v := by rw [Machine.value_neg, Rat.cast_neg]
  euler := Scalar.euler
  div := Scalar.div
  pow := Scalar.pow
  ln := Scalar.ln
  log10 := Scalar.log10
  log := Real.logb
  sin := Scalar.sin
  cos := Scalar.cos
  tan := Scalar.tan
  pending _ _ _ := 0

namespace Expr

open Reading

section
variable {R : Type*} [CommRing R] (m : Interpretation R) (b : Char → R)

/-- What a tree means when its variables are bound. The kind of a logarithm tells which function it
is. -/
def meaning : Expr Float → R
  | num value => m.num value
  | var id => b id
  | const _ => m.euler
  | add l r => l.meaning + r.meaning
  | sub l r => l.meaning - r.meaning
  | mul l r => l.meaning * r.meaning
  | div l r => m.div l.meaning r.meaning
  | pow l r => m.pow l.meaning r.meaning
  | log _ argument .natural => m.ln argument.meaning
  | log _ argument .ten => m.log10 argument.meaning
  | log base argument .general => m.log base.meaning argument.meaning
  | pending n d order => m.pending n.meaning d.meaning order
  | sin a => m.sin a.meaning
  | cos a => m.cos a.meaning
  | tan a => m.tan a.meaning

/-! ## Signs and rows -/

/-- A sign in front of a tree gives it the opposite meaning. -/
theorem meaning_negate (x : Expr Float) : (negate x).meaning m b = -x.meaning m b := by
  have hnum : ∀ v : Float, m.num (Scalar.neg v) = -m.num v := m.num_neg
  have hone : m.num (Scalar.ofInt (-1)) = -1 := by
    rw [← m.num_one, ← m.num_neg]
    rfl
  rcases negate_cases x with ⟨value, rfl, h⟩ | ⟨value, r, rfl, h⟩ | h
  · rw [h, meaning, meaning, hnum]
  · rw [h, meaning, meaning, meaning, meaning, hnum, neg_mul]
  · rw [h, opposite, ofInt, meaning, meaning, hone, neg_one_mul]

/-- What a run is multiplied with by what it has before it. -/
def Lead.coefficient : Lead Float → R
  | start => 1
  | minus => -1
  | times left => left.meaning m b

/-- What stands before a run multiplies its meaning. -/
theorem meaning_apply (lead : Lead Float) (x : Expr Float) :
    (lead.apply x).meaning m b = lead.coefficient m b * x.meaning m b := by
  cases lead with
  | start => exact (one_mul _).symm
  | minus => rw [Lead.apply, meaning_negate, Lead.coefficient, neg_one_mul]
  | times => rfl

/-- A letter is multiplied with what stands before it, wherever it goes. -/
theorem meaning_beside_letter (s : Spelling Float) (text : List Char) (y : Expr Float) :
    (s.beside (.run .start text y)).expr.meaning m b = s.expr.meaning m b * y.meaning m b := by
  cases s with
  | closed => rfl
  | run lead =>
    rw [Spelling.beside, Spelling.expr, meaning_apply, meaning, Spelling.expr,
      meaning_apply, mul_assoc]

/-- Two factors side by side mean their product. -/
theorem meaning_beside {first second : Expr Float} (ha : second.isAtomic = true)
    (hconst : second.isConstant = false) :
    (first.spelling.beside (spellingBehind second second.spelling)).expr.meaning m b =
      first.reread.meaning m b * second.reread.meaning m b := by
  by_cases hvar : ∃ id, second = var id
  · obtain ⟨id, rfl⟩ := hvar
    exact meaning_beside_letter m b first.spelling [id] (leaf id)
  · rw [spellingBehind_of_ne ha hconst fun id hid => hvar ⟨id, hid⟩, Spelling.beside_closed]
    rfl

end

/-! ## Bases of logarithms -/

/-- A finite number reads back as it was. -/
theorem reread_num_of_isFinite {value : Float} (h : Numeral.isFinite value = true) :
    (num value).reread = num value := by
  rw [reread_num]
  exact congrArg num
    (Machine.toFloat_reread (Machine.isNaN_of_isFinite (Machine.isFinite_eq value ▸ h)))

/-- A variable reads back as it was. -/
theorem reread_var {id : Char} (h : id = 'x' ∨ id = 'y' ∨ id = 'z') :
    (var id : Expr Float).reread = var id := by
  have hne : id ≠ 'e' := by rcases h with rfl | rfl | rfl <;> decide
  exact if_neg hne

/-- Two factors side by side read as a product. -/
theorem exists_beside_eq_mul (s t : Spelling Float) : ∃ x y, (s.beside t).expr = mul x y := by
  cases t with
  | closed y => exact ⟨s.expr, y, by rw [Spelling.beside_closed]; rfl⟩
  | run lead text y =>
    cases s with
    | closed x => exact ⟨x, y, rfl⟩
    | run lead text x =>
      cases lead with
      | start => exact ⟨x, y, rfl⟩
      | times left => exact ⟨left, mul x y, rfl⟩
      | minus =>
        rcases negate_cases (mul x y) with ⟨value, h, -⟩ | ⟨value, r, -, h⟩ | h
        · cases h
        · exact ⟨_, _, h⟩
        · exact ⟨_, _, h⟩

/-- The text of a product reads as a product. -/
theorem exists_reread_eq_mul (l r : Expr Float) : ∃ x y, (mul l r).reread = mul x y := by
  cases hj : juxtaposed? l r with
  | none => exact ⟨_, _, reread_mul_of_none hj⟩
  | some swapped =>
    rw [reread_mul_of_some hj]
    cases swapped with
    | false => exact exists_beside_eq_mul _ _
    | true => exact exists_beside_eq_mul _ _

/-- The base of a logarithm is told from its text. -/
theorem baseKind_reread {e : Expr Float} (h : e.IsSpatial) : e.reread.baseKind = e.baseKind := by
  cases e with
  | num value => rw [reread_num_of_isFinite h]
  | var id => rw [reread_var h]
  | const id =>
    obtain rfl : id = 'e' := h
    rfl
  | mul l r =>
    obtain ⟨x, y, hmul⟩ := exists_reread_eq_mul l r
    rw [hmul]
    rfl
  | log base argument kind => cases kind <;> rfl
  | pending => cases h
  | add | sub | div | pow | sin | cos | tan => rfl

/-! ## Formulas -/

variable {R : Type*} [CommRing R] {e : Expr Float}

/-- What a formula in space reads as means what the formula means. -/
theorem meaning_reread (m : Interpretation R) (b : Char → R) (hs : e.Everywhere IsSpatial)
    (hk : e.KindsAgree) :
    e.reread.meaning m b = e.meaning m b := by
  induction e with
  | num value => rw [reread_num_of_isFinite hs]
  | var id => rw [reread_var hs]
  | const id =>
    obtain rfl : id = 'e' := hs
    rfl
  | add l r ihl ihr =>
    exact congrArg₂ (· + ·) (ihl hs.2.1 hk.2.1) (ihr hs.2.2 hk.2.2)
  | sub l r ihl ihr =>
    exact congrArg₂ (· - ·) (ihl hs.2.1 hk.2.1) (ihr hs.2.2 hk.2.2)
  | mul l r ihl ihr =>
    have hl := ihl hs.2.1 hk.2.1
    have hr := ihr hs.2.2 hk.2.2
    cases hj : juxtaposed? l r with
    | none => rw [reread_mul_of_none hj, meaning, meaning, hl, hr]
    | some swapped =>
      obtain ⟨hlatomic, hratomic, hconst⟩ := of_juxtaposed? hj
      rw [reread_mul_of_some hj, meaning]
      cases swapped with
      | false => exact (meaning_beside m b hratomic hconst).trans (by rw [hl, hr])
      | true => exact (meaning_beside m b hlatomic hconst).trans (by rw [hl, hr, mul_comm])
  | div l r ihl ihr =>
    exact congrArg₂ m.div (ihl hs.2.1 hk.2.1) (ihr hs.2.2 hk.2.2)
  | pow l r ihl ihr =>
    exact congrArg₂ m.pow (ihl hs.2.1 hk.2.1) (ihr hs.2.2 hk.2.2)
  | log base argument kind ihb iha =>
    have ha := iha hs.2.2 hk.2.2
    have hkind : kind = base.baseKind := hk.1
    cases kind with
    | natural => exact congrArg m.ln ha
    | ten =>
      have hten : (ofInt 10 : Expr Float).baseKind = .ten := by decide +kernel
      have hread : (log base argument .ten).reread = log (ofInt 10) argument.reread .ten :=
        congrArg (log (ofInt 10) argument.reread) hten
      rw [hread]
      exact congrArg m.log10 ha
    | general =>
      have hbase : base.reread.baseKind = .general := (baseKind_reread hs.2.1.self).trans hkind.symm
      have hread : (log base argument .general).reread = log base.reread argument.reread .general :=
        congrArg (log base.reread argument.reread) hbase
      rw [hread]
      exact congrArg₂ m.log (ihb hs.2.1 hk.2.1) ha
  | pending => cases hs.1
  | sin a ih => exact congrArg m.sin (ih hs.2 hk.2)
  | cos a ih => exact congrArg m.cos (ih hs.2 hk.2)
  | tan a ih => exact congrArg m.tan (ih hs.2 hk.2)

/-- The text of a formula in three variables parses, with full parentheses or without, and to a
formula of the same meaning in every interpretation. -/
theorem exists_parse_write (full : Bool) (hs : e.Everywhere IsSpatial) (hk : e.KindsAgree) :
    ∃ t : Expr Float, Expr.parse (String.ofList (e.write full)) = .ok t ∧
      ∀ {R : Type*} [CommRing R] (m : Interpretation R) (b : Char → R),
      t.meaning m b = e.meaning m b := by
  refine ⟨e.reread, ?_, fun m b => meaning_reread m b hs hk⟩
  rw [parse, parseWith, String.toList_ofList]
  exact (legible_of_isSpatial hs).read_write

/-- The sign of a number in a row goes to the whole row, so that another tree is read, which means
the same. -/
theorem exists_parse_write_signed_row :
    let e : Expr Float := sub (pow (num (-2)) (log10 (var 'z')))
      (mul (mul (var 'x') (num (-2))) (var 'y'))
    e.Everywhere IsSpatial ∧ e.KindsAgree ∧ Expr.parse "(-2)^log(z) - -2xy" ≠ .ok e ∧
      ∃ t : Expr Float, Expr.parse "(-2)^log(z) - -2xy" = .ok t ∧
        ∀ b, t.meaning Interpretation.real b = e.meaning Interpretation.real b := by
  intro e
  have hs : e.Everywhere IsSpatial := by decide +kernel
  have hk : e.KindsAgree :=
    ⟨trivial, ⟨trivial, trivial, rfl, trivial, trivial⟩, trivial,
      ⟨trivial, trivial, trivial⟩, trivial⟩
  have htext : String.ofList (e.write false) = "(-2)^log(z) - -2xy" := by decide +kernel
  obtain ⟨t, ht, hmeaning⟩ := exists_parse_write false hs hk
  rw [htext] at ht
  exact ⟨hs, hk, by decide +kernel, t, ht, fun b => hmeaning Interpretation.real b⟩

end Expr

end Formula
