import Formula.Expr.Writing
import Formula.Proofs.Decimal

/-!
# How written expressions read

A written expression need not read as the expression itself. A product written without signs reads
from the left, but letters behind each other are taken together first: behind a group `yz` is one
factor, `y * z`, whatever the product was. A minus sign that a number brings along goes to the whole
run of letters behind that number. `Expr.reread` says what becomes of a tree when its text is read,
and `Expr.Legible` when it does: no letters end a function name or spell a number, and no sum takes
its sign for that of an exponent.
-/

namespace Formula.Expr

open Reading

variable {α : Type} [Numeral α]

/-- What a run of symbols at the end of a written product has before it. -/
inductive Lead (α : Type)
  /-- Nothing. -/
  | start
  /-- The minus sign of a number. -/
  | minus
  /-- A factor and a multiplication sign. -/
  | times (left : Expr α)

/-- What a run reads as, together with what it has before it. -/
def Lead.apply : Lead α → Expr α → Expr α
  | start, x => x
  | minus, x => negate x
  | times l, x => mul l x

/-- What a written expression reads as, and whether more letters could join its end. -/
inductive Spelling (α : Type)
  /-- Letters behind the text begin a new run. -/
  | closed (x : Expr α)
  /-- The text ends in a run, which reads as an expression and takes up the letters behind it. -/
  | run (lead : Lead α) (text : List Char) (x : Expr α)

namespace Spelling

/-- What the text reads as. -/
def expr : Spelling α → Expr α
  | closed x => x
  | run lead _ x => lead.apply x

/-- The spelling of two factors side by side, of which the second is a letter, a call or a group. -/
def beside : Spelling α → Spelling α → Spelling α
  | run lead s x, run _ t y => run lead (s ++ t) (mul x y)
  | closed x, run _ t y => run (.times x) t y
  | first, closed y => closed (mul first.expr y)

/-- May a letter stand behind the text `s` of this spelling? It must not make the run at the end a
word for a number, and where it begins a new run it needs a group before it. -/
def Takes (s : List Char) (c : Char) : Spelling α → Prop
  | run _ text _ => Literal.isWord (text ++ [c]) = false
  | closed _ => s.getLast? = some ')'

instance (s : List Char) (c : Char) : (sp : Spelling α) → Decidable (sp.Takes s c)
  | run _ text _ => inferInstanceAs (Decidable (Literal.isWord (text ++ [c]) = false))
  | closed _ => inferInstanceAs (Decidable (s.getLast? = some ')'))

end Spelling

/-- The spelling of a second factor: a product gets parentheses. -/
def spellingBehind (second : Expr α) (s : Spelling α) : Spelling α :=
  if second.isProduct then .closed s.expr else s

/-- The spelling of an expression, which is the same with and without full parentheses. -/
def spelling : Expr α → Spelling α
  | num value =>
    let d := (Numeral.toDecimal value).magnitude
    .run (if Numeral.isNegative value then .minus else .start) d.text
      (num (Numeral.ofDecimal d.reread))
  | var id | const id => .run .start [id] (leaf id)
  | add l r => .closed (add l.spelling.expr r.spelling.expr)
  | sub l r => .closed (sub l.spelling.expr r.spelling.expr)
  | mul l r =>
    match juxtaposed? l r with
    | some false => l.spelling.beside (spellingBehind r r.spelling)
    | some true => r.spelling.beside (spellingBehind l l.spelling)
    | none => .closed (mul l.spelling.expr r.spelling.expr)
  | div l r => .closed (div l.spelling.expr r.spelling.expr)
  | pow l r => .closed (pow l.spelling.expr r.spelling.expr)
  | log base argument kind =>
    match kind with
    | .natural => .closed argument.spelling.expr.ln
    | .ten => .closed argument.spelling.expr.log10
    | .general => .closed (logarithm base.spelling.expr argument.spelling.expr)
  | pending n d order => .closed (pending n d order)
  | sin a => .closed (sin a.spelling.expr)
  | cos a => .closed (cos a.spelling.expr)
  | tan a => .closed (tan a.spelling.expr)

/-- What the text of an expression reads as. -/
def reread (e : Expr α) : Expr α :=
  e.spelling.expr

/-- A second factor that is no letter closes the row. -/
theorem spellingBehind_of_ne {second : Expr α} (ha : second.isAtomic = true)
    (hconst : second.isConstant = false) (h : ∀ id, second ≠ var id) :
    spellingBehind second second.spelling = .closed second.reread := by
  cases second with
  | num | const => cases hconst
  | var id => exact absurd rfl (h id)
  | sin | cos | tan | mul => rfl
  | add | sub | div | pow | log | pending => cases ha

/-- Behind anything a closed spelling closes the row. -/
theorem Spelling.beside_closed (s : Spelling α) (y : Expr α) :
    s.beside (.closed y) = .closed (mul s.expr y) := by
  cases s <;> rfl

/-- The text of an expression without blanks. -/
def unspaced (full : Bool) (e : Expr α) : List Char :=
  squeezed (e.write full)

/-- May the second factor stand behind the first one without a sign? A letter must not complete a
function name, and a tangent behind `co` would be another function. -/
def MayFollow (full : Bool) (first : Expr α) : Expr α → Prop
  | var id =>
    (∀ f ∈ Symbol.functions, ¬ f.name <:+ first.unspaced full ++ [id]) ∧
      first.spelling.Takes (first.unspaced full) id
  | tan _ => ¬ ['c', 'o'] <:+ first.unspaced full
  | _ => True

instance (full : Bool) (first : Expr α) :
    (second : Expr α) → Decidable (MayFollow full first second)
  | var _ => inferInstanceAs (Decidable (_ ∧ _))
  | tan _ => inferInstanceAs (Decidable (¬ _))
  | num _ | const _ | add _ _ | sub _ _ | mul _ _ | div _ _ | pow _ _ | log _ _ _
  | pending _ _ _ | sin _
  | cos _ => isTrue trivial

/-- Would the sign between two operands read as the sign of an exponent? -/
def CapturesSign (full : Bool) (parent l r : Expr α) (sign : Char) : Prop :=
  Captured (operandText full parent l false (l.unspaced full)) sign
    (operandText full parent r true (r.unspaced full))

instance (full : Bool) (parent l r : Expr α) (sign : Char) :
    Decidable (CapturesSign full parent l r sign) :=
  inferInstanceAs (Decidable (Captured ..))

/-- Can the text of the expression be read symbol by symbol as it was written? -/
def Legible (full : Bool) : Expr α → Prop
  | num _ => True
  | var id | const id => id.isAlpha = true
  | add l r => l.Legible full ∧ r.Legible full ∧ ¬ CapturesSign full (add l r) l r '+'
  | sub l r => l.Legible full ∧ r.Legible full ∧ ¬ CapturesSign full (sub l r) l r '-'
  | mul l r =>
    l.Legible full ∧ r.Legible full ∧
      match juxtaposed? l r with
      | some false => MayFollow full l r
      | some true => MayFollow full r l
      | none => True
  | div l r | pow l r | log l r _ => l.Legible full ∧ r.Legible full
  | pending .. => False
  | sin a | cos a | tan a => a.Legible full

instance decidableLegible (full : Bool) : (e : Expr α) → Decidable (e.Legible full)
  | num _ => isTrue trivial
  | var id | const id => inferInstanceAs (Decidable (id.isAlpha = true))
  | add l r | sub l r =>
    have := decidableLegible full l
    have := decidableLegible full r
    inferInstanceAs (Decidable (_ ∧ _ ∧ ¬ _))
  | mul l r =>
    have := decidableLegible full l
    have := decidableLegible full r
    match h : juxtaposed? l r with
    | some false =>
      decidable_of_iff (l.Legible full ∧ r.Legible full ∧ MayFollow full l r) (by rw [Legible, h])
    | some true =>
      decidable_of_iff (l.Legible full ∧ r.Legible full ∧ MayFollow full r l) (by rw [Legible, h])
    | none => decidable_of_iff (l.Legible full ∧ r.Legible full) (by rw [Legible, h]; simp)
  | div l r | pow l r | log l r _ =>
    have := decidableLegible full l
    have := decidableLegible full r
    inferInstanceAs (Decidable (_ ∧ _))
  | pending .. => isFalse id
  | sin a | cos a | tan a => decidableLegible full a

end Formula.Expr
