import Mathlib
import Formula.Scalar

/-!
# Laws of scalars

Numeric equality of machine numbers is symmetric. It is reflexive on numbers only
(`Scalar.same_self`), since what is not a number differs from itself, and it tells different numbers
apart up to the sign of zero (`eq_of_same`). Sums and products of machine numbers do not depend on
the order of their operands, not even in the sign of a zero or in what is not a number.
-/

namespace Formula

/-- Scalars whose numeric equality is symmetric. -/
class Scalar.Symmetric (α : Type) [Scalar α] : Prop where
  same_comm (a b : α) : Scalar.same a b = Scalar.same b a

/-- Equality of machine numbers does not depend on their order. -/
theorem beq_of_beq {a b : Float} (h : a == b) : b == a := by
  rw [Float.beq_iff_ne_nan_and_eq] at h ⊢
  obtain ⟨ha, hb, rfl | ⟨rfl, rfl⟩ | ⟨rfl, rfl⟩⟩ := h
  · exact ⟨ha, hb, .inl rfl⟩
  · exact ⟨hb, ha, .inr (.inr ⟨rfl, rfl⟩)⟩
  · exact ⟨hb, ha, .inr (.inl ⟨rfl, rfl⟩)⟩

instance : Scalar.Symmetric Float where
  same_comm _ _ := Bool.eq_iff_iff.2 ⟨beq_of_beq, beq_of_beq⟩

/-- A machine number that is one is the same as itself. -/
theorem Scalar.same_self {x : Float} (h : x.isNaN = false) : Scalar.same x x = true := by
  rw [Float.isNaN_eq_decide_eq_nan, decide_eq_false_iff_not] at h
  exact Float.beq_self_iff.2 h

/-- Numbers that compare as equal are equal, unless one is zero with a minus sign. -/
theorem Scalar.eq_of_same {x y : Float} (h : Scalar.same x y = true) (hx : x ≠ -0) (hy : y ≠ -0) :
    x = y := by
  obtain ⟨-, -, h | ⟨-, hy'⟩ | ⟨hx', -⟩⟩ := Float.beq_iff_ne_nan_and_eq.1 h
  · exact h
  · exact absurd hy' hy
  · exact absurd hx' hx

/-! ## Commutativity -/

/-- Scalars whose sums and products do not depend on the order of the operands. -/
class Scalar.Commutative (α : Type) [Scalar α] : Prop where
  add_comm (a b : α) : Scalar.add a b = Scalar.add b a
  mul_comm (a b : α) : Scalar.mul a b = Scalar.mul b a

section
open Float.Model Float.Model.UnpackedFloat

/-- Signs multiply in either order. -/
theorem sign_mul_comm (s t : Sign) : s * t = t * s := by
  cases s <;> cases t <;> rfl

/-- Unpacked numbers add up to the same in either order. -/
theorem unpackedFloat_add_comm (spec : Format) (x y : UnpackedFloat) :
    x.add spec y = y.add spec x := by
  cases x with
  | notANumber => cases y <;> rfl
  | infinity s =>
    cases y with
    | infinity t => cases s <;> cases t <;> rfl
    | _ => rfl
  | zero s =>
    cases y with
    | zero t => cases s <;> cases t <;> rfl
    | _ => rfl
  | finite =>
    cases y with
    | finite =>
      simp only [UnpackedFloat.add]
      rw [Int.min_comm, Int.add_comm]
    | _ => rfl

/-- Unpacked numbers multiply to the same in either order. -/
theorem unpackedFloat_mul_comm (spec : Format) (x y : UnpackedFloat) :
    x.mul spec y = y.mul spec x := by
  cases x <;> cases y <;> simp only [UnpackedFloat.mul, sign_mul_comm, Nat.mul_comm, Int.add_comm]

end

instance : Scalar.Commutative Float where
  add_comm _ _ := congrArg (fun x => Float.ofModel (Float.Model.pack x))
    (unpackedFloat_add_comm _ _ _)
  mul_comm _ _ := congrArg (fun x => Float.ofModel (Float.Model.pack x))
    (unpackedFloat_mul_comm _ _ _)

end Formula
