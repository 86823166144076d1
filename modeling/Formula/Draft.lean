import Formula.Reading.Parse

/-!
# Drafts

A draft is an expression in the making: a tree some of whose parts are still text. Building it reads
the texts from left to right, so the first text that is no formula is the one reported.
-/

namespace Formula

/-- A tree with texts among its leaves. -/
inductive Draft (α : Type)
  /-- A text to be read, with or without restoring omitted multiplication signs. -/
  | written (text : String) (restore : Bool)
  | num (value : α)
  | var (id : Char)
  | const (id : Char)
  | add (left right : Draft α)
  | sub (left right : Draft α)
  | mul (left right : Draft α)
  | div (left right : Draft α)
  | pow (base exponent : Draft α)
  /-- A logarithm, whose kind is read off its base unless it is given. -/
  | log (base argument : Draft α) (kind : Option LogBase)
  | pending (numerator denominator : Draft α) (order : Nat)
  | sin (argument : Draft α)
  | cos (argument : Draft α)
  | tan (argument : Draft α)

/-- The expression that a draft stands for. -/
def Draft.build {α : Type} [Numeral α] : Draft α → Except ParseError (Expr α)
  | written text restore => Expr.parseWith restore text
  | num value => .ok (.num value)
  | var id => .ok (.var id)
  | const id => .ok (.const id)
  | add l r => do return .add (← l.build) (← r.build)
  | sub l r => do return .sub (← l.build) (← r.build)
  | mul l r => do return .mul (← l.build) (← r.build)
  | div l r => do return .div (← l.build) (← r.build)
  | pow l r => do return .pow (← l.build) (← r.build)
  | log base argument kind => do
    let base ← base.build
    let argument ← argument.build
    return match kind with
      | some kind => .log base argument kind
      | none => .logarithm base argument
  | pending n d order => do return .pending (← n.build) (← d.build) order
  | sin a => do return .sin (← a.build)
  | cos a => do return .cos (← a.build)
  | tan a => do return .tan (← a.build)

end Formula
