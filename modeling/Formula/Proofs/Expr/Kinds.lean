import Mathlib.Control.Monad.Basic
import Formula.Decimal.Shortest
import Formula.Proofs.Expr.Operations
import Formula.Proofs.Reading.Outcome
import Formula.Proofs.Simplification.Preservation

/-!
# Kinds of logarithms

The kind of a logarithm is stored beside its base, and evaluation, writing and differentiation trust
it. A base may change under an operation: a variable may be replaced by ten, a constant may be
folded into Euler's number. Every operation that builds a logarithm anew takes its kind from the new
base, so the kinds agree with the bases in a tree that was read (`KindsAgree.of_read`) and in
whatever is formed from such trees, by however many operations (`kindsAgree_of_formed`).
-/

namespace Formula.Expr

variable {α : Type}

section
variable [Scalar α] {e l r : Expr α}

/-- Logarithms are built with the kind of their base. -/
theorem holdsOfBuilt_kindAgrees : HoldsOfBuilt (KindAgrees : Expr α → Prop) where
  ofInt _ _ := trivial
  euler := trivial
  folded _ _ := trivial
  add _ _ := trivial
  sub _ _ := trivial
  mul _ _ := trivial
  div _ _ := trivial
  pow _ _ := trivial
  logarithm _ _ := rfl
  sin _ := trivial
  cos _ := trivial
  tan _ := trivial

/-- Simplification keeps the kinds of logarithms right. -/
theorem KindsAgree.simplify (h : e.KindsAgree) : e.simplify.KindsAgree :=
  Everywhere.simplify holdsOfBuilt_kindAgrees h

/-- Differentiation keeps the kinds of logarithms right. -/
theorem KindsAgree.derivative (v : Char) (h : e.KindsAgree) : (e.derivative v).KindsAgree :=
  Everywhere.derivative holdsOfBuilt_kindAgrees.toHoldsOfOperations trivial (fun _ _ _ => trivial) h

/-- Derivatives of every order keep the kinds of logarithms right. -/
theorem KindsAgree.nthDerivative (v : Char) (n : Nat) (h : e.KindsAgree) :
    (e.nthDerivative v n).KindsAgree := by
  induction n with
  | zero => exact h.simplify
  | succ n ih => exact (ih.derivative v).simplify

/-- A logarithm is built anew after its base was substituted, so its kind follows the base. -/
theorem KindsAgree.substitute (value? : Char → Option α) (h : e.KindsAgree) :
    (e.substitute value?).KindsAgree := by
  induction e with
  | num | const => trivial
  | var id =>
    unfold Expr.substitute
    split <;> trivial
  | add _ _ ihl ihr | sub _ _ ihl ihr | mul _ _ ihl ihr | div _ _ ihl ihr | pow _ _ ihl ihr
  | pending _ _ _ ihl ihr => exact ⟨trivial, ihl h.2.1, ihr h.2.2⟩
  | log _ _ _ ihl ihr => exact ⟨rfl, ihl h.2.1, ihr h.2.2⟩
  | sin _ ih | cos _ ih | tan _ ih => exact ⟨trivial, ih h.2⟩

end

variable [Numeral α] {given : Expr α → Prop} {e : Expr α}

/-- What is read has logarithms of the right kinds. -/
theorem KindsAgree.of_read {restore : Bool} {s : List Char} (h : read restore s = .ok e) :
    e.KindsAgree := by
  refine (everywhere_isOrdinary_of_read h).imp fun s hs => ?_
  cases s with
  | log => exact hs
  | _ => trivial

/-- What can be formed by operations from given expressions and from formulas that are read. -/
inductive Formed (given : Expr α → Prop) : Expr α → Prop
  | given {x} (h : given x) : Formed given x
  | parsed {restore text x} (h : parseWith restore text = .ok x) : Formed given x
  | derivative {x} (v) (h : Formed given x) : Formed given (x.derivative v)
  | nthDerivative {x} (v n) (h : Formed given x) : Formed given (x.nthDerivative v n)
  | simplify {x} (h : Formed given x) : Formed given x.simplify
  | setVariable {x} (v value) (h : Formed given x) : Formed given (x.setVariable v value)
  | setVariables {x} (b) (h : Formed given x) : Formed given (x.setVariables b)
  | apply {x} (f : Symbol) (h : Formed given x) : Formed given (f.apply x)
  | opposite {x} (h : Formed given x) : Formed given x.opposite
  | ln {x} (h : Formed given x) : Formed given x.ln
  | log10 {x} (h : Formed given x) : Formed given x.log10
  | add {x y} (hx : Formed given x) (hy : Formed given y) : Formed given (add x y)
  | sub {x y} (hx : Formed given x) (hy : Formed given y) : Formed given (sub x y)
  | mul {x y} (hx : Formed given x) (hy : Formed given y) : Formed given (mul x y)
  | div {x y} (hx : Formed given x) (hy : Formed given y) : Formed given (div x y)
  | pow {x y} (hx : Formed given x) (hy : Formed given y) : Formed given (pow x y)
  | logarithm {x y} (hx : Formed given x) (hy : Formed given y) : Formed given (logarithm x y)
  | pending {x y} (order) (hx : Formed given x) (hy : Formed given y) : Formed given
    (pending x y order)

/-- In whatever is formed from expressions in which the kinds of logarithms agree with the bases,
they agree with them. -/
theorem kindsAgree_of_formed (hgiven : ∀ e, given e → e.KindsAgree) (h : Formed given e) :
    e.KindsAgree := by
  have hP : HoldsOfOperations (KindAgrees : Expr α → Prop) :=
    holdsOfBuilt_kindAgrees.toHoldsOfOperations
  induction h with
  | given h => exact hgiven _ h
  | parsed h => exact .of_read h
  | derivative v _ ih => exact ih.derivative v
  | nthDerivative v n _ ih => exact ih.nthDerivative v n
  | simplify _ ih => exact ih.simplify
  | setVariable | setVariables => exact KindsAgree.substitute _ ‹_›
  | apply f _ ih => exact Everywhere.apply hP f ih
  | opposite _ ih => exact Everywhere.opposite hP ih
  | ln _ ih => exact Everywhere.ln hP ih
  | log10 _ ih => exact Everywhere.logarithm hP trivial ih
  | add _ _ ihl ihr | sub _ _ ihl ihr | mul _ _ ihl ihr | div _ _ ihl ihr | pow _ _ ihl ihr
  | pending _ _ _ ihl ihr => exact ⟨trivial, ihl, ihr⟩
  | logarithm _ _ ihl ihr => exact ⟨rfl, ihl, ihr⟩

/-- Two logarithms to one variable base get different kinds when different numbers are put in its
place. -/
theorem kindsAgree_of_formed_substituted_base :
    let given : Expr Float → Prop := (· = pow (const 'e') (var 'y'))
    let e : Expr Float := logarithm (var 'x') (var 'y')
    let d : Expr Float := add (e.setVariable 'x' 10) (e.setVariable 'x' Scalar.euler)
    Expr.parse "log[x](y)" = .ok e ∧
      d = add (log (num 10) (var 'y') .ten) (log (num Scalar.euler) (var 'y') .natural) ∧
      (∀ s, given s → s.KindsAgree) ∧ Formed given (mul (pow (const 'e') (var 'y')) d) ∧
        (mul (pow (const 'e') (var 'y')) d).KindsAgree := by
  intro given e d
  have hparse : Expr.parse "log[x](y)" = .ok e := by decide +kernel
  have hd : d = add (log (num 10) (var 'y') .ten) (log (num Scalar.euler) (var 'y') .natural) := by
    decide +kernel
  have hgiven : ∀ s, given s → s.KindsAgree := by
    rintro s rfl
    exact ⟨trivial, trivial, trivial⟩
  have hset : ∀ value, Formed given (e.setVariable 'x' value) :=
    fun value => .setVariable 'x' value (.parsed hparse)
  have hformed : Formed given (mul (pow (const 'e') (var 'y')) d) :=
    .mul (.given rfl) (.add (hset _) (hset _))
  exact ⟨hparse, hd, hgiven, hformed, kindsAgree_of_formed hgiven hformed⟩

end Formula.Expr
