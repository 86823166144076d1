import Formula.Expr

/-!
# Properties of every node

A property that is asked of every subexpression of a tree, `Expr.Everywhere`, and the shapes that
statements about whole trees suppose: no derivative is left pending (`MarkerFree`), every constant
is Euler's number (`EulerOnly`), every logarithm has the kind of its base (`KindsAgree`), and every
machine number is one (`IsNotNaN`). What the rules of the library build has a property if their
operations have it, `HoldsOfOperations`.
-/

namespace Formula.Expr

variable {α : Type} {P Q : Expr α → Prop}

/-- Every subexpression, the expression itself included, has a property. -/
def Everywhere (P : Expr α → Prop) : Expr α → Prop
  | num value => P (num value)
  | var id => P (var id)
  | const id => P (const id)
  | add l r => P (add l r) ∧ l.Everywhere P ∧ r.Everywhere P
  | sub l r => P (sub l r) ∧ l.Everywhere P ∧ r.Everywhere P
  | mul l r => P (mul l r) ∧ l.Everywhere P ∧ r.Everywhere P
  | div l r => P (div l r) ∧ l.Everywhere P ∧ r.Everywhere P
  | pow l r => P (pow l r) ∧ l.Everywhere P ∧ r.Everywhere P
  | log l r kind => P (log l r kind) ∧ l.Everywhere P ∧ r.Everywhere P
  | pending n d order => P (pending n d order) ∧ n.Everywhere P ∧ d.Everywhere P
  | sin a => P (sin a) ∧ a.Everywhere P
  | cos a => P (cos a) ∧ a.Everywhere P
  | tan a => P (tan a) ∧ a.Everywhere P

instance decidableEverywhere [DecidablePred P] : (e : Expr α) → Decidable (e.Everywhere P)
  | num _ | var _ | const _ => inferInstanceAs (Decidable (P _))
  | add l r | sub l r | mul l r | div l r | pow l r | log l r _ | pending l r _ =>
    have := decidableEverywhere l
    have := decidableEverywhere r
    inferInstanceAs (Decidable (_ ∧ _ ∧ _))
  | sin a | cos a | tan a =>
    have := decidableEverywhere a
    inferInstanceAs (Decidable (_ ∧ _))

/-- What holds everywhere holds of the expression itself. -/
theorem Everywhere.self {e : Expr α} (h : e.Everywhere P) : P e := by
  cases e with
  | num | var | const => exact h
  | add | sub | mul | div | pow | log | pending | sin | cos | tan => exact h.1

/-- A weaker property holds everywhere too. -/
theorem Everywhere.imp {e : Expr α} (himp : ∀ s, P s → Q s) (h : e.Everywhere P) :
    e.Everywhere Q := by
  induction e with
  | num | var | const => exact himp _ h
  | add _ _ ihl ihr | sub _ _ ihl ihr | mul _ _ ihl ihr | div _ _ ihl ihr | pow _ _ ihl ihr
  | log _ _ _ ihl ihr | pending _ _ _ ihl ihr => exact ⟨himp _ h.1, ihl h.2.1, ihr h.2.2⟩
  | sin _ ih | cos _ ih | tan _ ih => exact ⟨himp _ h.1, ih h.2⟩

/-- Two properties that hold everywhere hold together. -/
theorem Everywhere.and {e : Expr α} (hP : e.Everywhere P) (hQ : e.Everywhere Q) :
    e.Everywhere fun s => P s ∧ Q s := by
  induction e with
  | num | var | const => exact ⟨hP, hQ⟩
  | add _ _ ihl ihr | sub _ _ ihl ihr | mul _ _ ihl ihr | div _ _ ihl ihr | pow _ _ ihl ihr
  | log _ _ _ ihl ihr | pending _ _ _ ihl ihr =>
    exact ⟨⟨hP.1, hQ.1⟩, ihl hP.2.1 hQ.2.1, ihr hP.2.2 hQ.2.2⟩
  | sin _ ih | cos _ ih | tan _ ih => exact ⟨⟨hP.1, hQ.1⟩, ih hP.2 hQ.2⟩

/-! ## Shapes of trees -/

/-- Is the expression a pending derivative? -/
def isPending : Expr α → Bool
  | pending .. => true
  | _ => false

/-- No derivative in the tree is pending. -/
def MarkerFree (e : Expr α) : Prop :=
  e.Everywhere fun s => s.isPending = false

/-- A constant is Euler's number. Nodes of other kinds qualify. -/
def IsEuler : Expr α → Prop
  | const id => id = 'e'
  | _ => True

/-- The only constant in the tree is Euler's number. -/
def EulerOnly (e : Expr α) : Prop :=
  e.Everywhere IsEuler

/-- If the node is a number, is it one? -/
def IsNotNaN : Expr Float → Prop
  | num value => value.isNaN = false
  | _ => True

instance : DecidablePred IsNotNaN
  | num value => inferInstanceAs (Decidable (value.isNaN = false))
  | var _ | const _ | add _ _ | sub _ _ | mul _ _ | div _ _ | pow _ _ | log _ _ _ | pending _ _ _
  | sin _ | cos _
  | tan _ => isTrue trivial

/-- If the node is a number, is it another one than zero with a minus sign? -/
def IsNotNegativeZero : Expr Float → Prop
  | num value => value ≠ -0
  | _ => True

instance : DecidablePred IsNotNegativeZero
  | num value => inferInstanceAs (Decidable (value ≠ -0))
  | var _ | const _ | add _ _ | sub _ _ | mul _ _ | div _ _ | pow _ _ | log _ _ _ | pending _ _ _
  | sin _ | cos _
  | tan _ => isTrue trivial

variable [Scalar α]

/-- A logarithm has the kind that its base tells. Nodes of other kinds qualify. -/
def KindAgrees : Expr α → Prop
  | log base _ kind => kind = base.baseKind
  | _ => True

/-- Every logarithm in the tree has the kind of its base. -/
def KindsAgree (e : Expr α) : Prop :=
  e.Everywhere KindAgrees

/-! ## What rules build -/

/-- The property holds of the nodes that rules put around what they are given: operations,
logarithms of the kind of their base, Euler's number and integers up to ten. -/
structure HoldsOfOperations (P : Expr α → Prop) : Prop where
  ofInt : ∀ n : Int, n.natAbs ≤ 10 → P (ofInt n)
  euler : P (const 'e')
  add : ∀ l r, P (add l r)
  sub : ∀ l r, P (sub l r)
  mul : ∀ l r, P (mul l r)
  div : ∀ l r, P (div l r)
  pow : ∀ l r, P (pow l r)
  logarithm : ∀ base argument, P (logarithm base argument)
  sin : ∀ a, P (sin a)
  cos : ∀ a, P (cos a)
  tan : ∀ a, P (tan a)

/-- The property holds of the nodes that rules build and of the numbers into which constants are
folded. A folded zero is always the integer. -/
structure HoldsOfBuilt (P : Expr α → Prop) : Prop extends HoldsOfOperations P where
  folded : ∀ value, Scalar.isZero value = false → P (num value)

/-- What holds of everything but variables and pending derivatives holds of what is built. -/
theorem HoldsOfBuilt.of_forall (h : ∀ s : Expr α, (∀ w, s ≠ var w) → s.isPending = false → P s) :
    HoldsOfBuilt P where
  ofInt _ _ := h _ nofun rfl
  euler := h _ nofun rfl
  folded _ _ := h _ nofun rfl
  add _ _ := h _ nofun rfl
  sub _ _ := h _ nofun rfl
  mul _ _ := h _ nofun rfl
  div _ _ := h _ nofun rfl
  pow _ _ := h _ nofun rfl
  logarithm _ _ := h _ nofun rfl
  sin _ := h _ nofun rfl
  cos _ := h _ nofun rfl
  tan _ := h _ nofun rfl

end Formula.Expr
