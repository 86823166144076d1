import Formula.Expr

/-!
# Evaluation

The value of an expression under bindings of its variables. A variable without a value counts as
zero. The only failure is a pending derivative, which has no value; dividing by zero and the like
give whatever the scalars give for it.
-/

namespace Formula

/-- Values of variables, none of which is bound twice. -/
structure Bindings (α : Type) where
  entries : List (Char × α) := []
  nodup : (entries.map (·.1)).Nodup := by simp

namespace Bindings

variable {α : Type}

/-- The value of a variable, if it has one. -/
def get? (b : Bindings α) (v : Char) : Option α :=
  b.entries.lookup v

/-- A variable can be bound when what was bound to it before is taken out. -/
theorem nodup_bind (b : Bindings α) (v : Char) (value : α) :
    (((v, value) :: b.entries.filter fun entry => entry.1 != v).map (·.1)).Nodup := by
  refine List.nodup_cons.2 ⟨?_, (List.filter_sublist.map _).nodup b.nodup⟩
  rw [List.mem_map]
  rintro ⟨entry, hentry, hv⟩
  have hne := (List.mem_filter.1 hentry).2
  rw [hv, bne_self_eq_false] at hne
  exact Bool.false_ne_true hne

/-- The bindings with one more variable bound. A value that it had before is forgotten. -/
def bind (b : Bindings α) (v : Char) (value : α) : Bindings α where
  entries := (v, value) :: b.entries.filter fun entry => entry.1 != v
  nodup := b.nodup_bind v value

/-- The bindings with several variables bound, one after the other. -/
def bindAll (b : Bindings α) (values : List (Char × α)) : Bindings α :=
  values.foldl (fun b entry => b.bind entry.1 entry.2) b

/-- The bindings that a list of variables and values gives. -/
def ofList (values : List (Char × α)) : Bindings α :=
  bindAll {} values

/-- Is no variable bound? -/
def isEmpty (b : Bindings α) : Bool :=
  b.entries.isEmpty

end Bindings

/-- Why an expression has no value. -/
inductive EvaluationError (α : Type)
  /-- It holds this pending derivative. -/
  | unresolvedDerivative (numerator denominator : Expr α) (order : Nat)

namespace Expr

variable {α : Type} [Scalar α]

/-- The value of an expression. Operands are evaluated from left to right, except that the argument
of a logarithm comes before its base, which only a general logarithm needs. -/
def evaluate (b : Bindings α) : Expr α → Except (EvaluationError α) α
  | num value => .ok value
  | var id => .ok ((b.get? id).getD (Scalar.ofInt 0))
  | const id => .ok (if id = 'e' then Scalar.euler else (b.get? id).getD (Scalar.ofInt 0))
  | add l r => do return Scalar.add (← l.evaluate b) (← r.evaluate b)
  | sub l r => do return Scalar.sub (← l.evaluate b) (← r.evaluate b)
  | mul l r => do return Scalar.mul (← l.evaluate b) (← r.evaluate b)
  | div l r => do return Scalar.div (← l.evaluate b) (← r.evaluate b)
  | pow l r => do return Scalar.pow (← l.evaluate b) (← r.evaluate b)
  | log base argument kind => do
    let value ← argument.evaluate b
    match kind with
    | .natural => return Scalar.ln value
    | .ten => return Scalar.log10 value
    | .general => return Scalar.div (Scalar.ln value) (Scalar.ln (← base.evaluate b))
  | pending n d order => .error (.unresolvedDerivative n d order)
  | sin a => do return Scalar.sin (← a.evaluate b)
  | cos a => do return Scalar.cos (← a.evaluate b)
  | tan a => do return Scalar.tan (← a.evaluate b)

/-- The value with every variable at zero. -/
def value (e : Expr α) : Except (EvaluationError α) α :=
  e.evaluate {}

/-- Is the expression free of variables, with the value zero? -/
def isConstantZero (e : Expr α) : Bool :=
  e.isConstant && match e.value with
    | .ok value => Scalar.isZero value
    | .error _ => false

/-- The expression with numbers in place of the variables that are bound. -/
def setVariables (b : Bindings α) (e : Expr α) : Expr α :=
  e.substitute b.get?

end Expr

end Formula
