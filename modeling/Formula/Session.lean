import Formula.Draft
import Formula.Failure

/-!
# Sessions

Work on a stack of expressions under bindings and settings that last. A command takes its operands
off the stack, the right one first, and puts its result on it; a command that fails leaves
everything as it was. `Session.step` is one command and `Session.run` a row of them.
-/

namespace Formula

/-- What a session remembers. -/
structure Session (α : Type) where
  /-- The expressions, topmost first. -/
  stack : List (Expr α) := []
  bindings : Bindings α := {}
  settings : Settings := {}

namespace Session

/-- What joins two expressions. -/
inductive Joint
  | add | sub | mul | div | pow
  /-- The logarithm of the right expression to the base of the left one. -/
  | log

/-- What changes one expression. -/
inductive Change
  | opposite | ln | log10

/-- One thing to do. -/
inductive Command (α : Type)
  /-- Read a formula as the settings say. -/
  | parse (text : String)
  | push (draft : Draft α)
  | join (joint : Joint)
  | change (change : Change)
  | apply (f : Symbol)
  /-- Leave the derivative of the second expression with respect to the topmost one pending. -/
  | pend (order : Nat)
  | differentiate (v : Char)
  /-- Differentiate as the settings say. -/
  | derive
  | simplify
  | set (v : Char) (value : α)
  | setAll (values : List (Char × α))
  | bind (v : Char) (value : α)
  | bindAll (values : List (Char × α))
  /-- Look a variable up in the bindings. -/
  | get (v : Char)
  | evaluate
  /-- Compare the two topmost expressions. -/
  | compare
  /-- Write the topmost expression and read it again as the settings say. -/
  | reparse
  | duplicate | swap | pop
  /-- Take the settings of a document. -/
  | configure (document : List Char)

/-- What a command tells besides changing the session. -/
inductive Answer (α : Type)
  | nothing
  | number (value : α)
  | truth (b : Bool)
  /-- The value of a variable, if it has one, and whether nothing at all is bound. -/
  | binding (value : Option α) (isEmpty : Bool)
  | settings (settings : Settings)

/-- Why a command was not carried out. -/
inductive Error (α : Type)
  /-- Too few expressions are on the stack. -/
  | underflow
  | failed (f : Failure α)

section

variable {α : Type} [Numeral α]

/-- Two expressions joined. -/
def Joint.apply : Joint → Expr α → Expr α → Expr α
  | add => .add
  | sub => .sub
  | mul => .mul
  | div => .div
  | pow => .pow
  | log => .logarithm

/-- An expression changed. -/
def Change.apply : Change → Expr α → Expr α
  | opposite => .opposite
  | ln => .ln
  | log10 => .log10

/-- What a command comes to. -/
abbrev Outcome (α : Type) := Except (Error α) (Session α × Answer α)

/-- The session with another stack. -/
def withStack (s : Session α) (stack : List (Expr α)) : Session α :=
  { s with stack }

/-- The session with one more expression, unless reading it failed. -/
def pushing (s : Session α) (stack : List (Expr α)) (e : Except ParseError (Expr α)) : Outcome α :=
  match e with
  | .ok e => .ok (s.withStack (e :: stack), .nothing)
  | .error e => .error (.failed (.parse e))

/-- The session with the topmost expression changed. -/
def onTop (s : Session α) (f : Expr α → Expr α) : Outcome α :=
  match s.stack with
  | e :: rest => .ok (s.withStack (f e :: rest), .nothing)
  | [] => .error .underflow

/-- The session with the two topmost expressions joined. -/
def onTopTwo (s : Session α) (f : Expr α → Expr α → Expr α) : Outcome α :=
  match s.stack with
  | r :: l :: rest => .ok (s.withStack (f l r :: rest), .nothing)
  | _ => .error .underflow

/-- What one command comes to. -/
def step (s : Session α) : Command α → Outcome α
  | .parse text => s.pushing s.stack (s.settings.parse text)
  | .push draft => s.pushing s.stack draft.build
  | .join joint => s.onTopTwo joint.apply
  | .change change => s.onTop change.apply
  | .apply f => s.onTop f.apply
  | .pend order => s.onTopTwo fun n d => .pending n d order
  | .differentiate v => s.onTop (·.derivative v)
  | .derive => s.onTop s.settings.derivative
  | .simplify => s.onTop (·.simplify)
  | .set v value => s.onTop (·.setVariable v value)
  | .setAll values => s.onTop (·.setVariables (.ofList values))
  | .bind v value => .ok ({ s with bindings := s.bindings.bind v value }, .nothing)
  | .bindAll values => .ok ({ s with bindings := s.bindings.bindAll values }, .nothing)
  | .get v => .ok (s, .binding (s.bindings.get? v) s.bindings.isEmpty)
  | .evaluate =>
    match s.stack with
    | e :: _ =>
      match e.evaluate s.bindings with
      | .ok value => .ok (s, .number value)
      | .error e => .error (.failed (.evaluation e))
    | [] => .error .underflow
  | .compare =>
    match s.stack with
    | r :: l :: _ => .ok (s, .truth (l.same r))
    | _ => .error .underflow
  | .reparse =>
    match s.stack with
    | e :: rest => s.pushing rest (s.settings.parse e.text)
    | [] => .error .underflow
  | .duplicate =>
    match s.stack with
    | e :: rest => .ok (s.withStack (e :: e :: rest), .nothing)
    | [] => .error .underflow
  | .swap =>
    match s.stack with
    | r :: l :: rest => .ok (s.withStack (l :: r :: rest), .nothing)
    | _ => .error .underflow
  | .pop =>
    match s.stack with
    | _ :: rest => .ok (s.withStack rest, .nothing)
    | [] => .error .underflow
  | .configure document =>
    match Settings.ofDocument document with
    | .ok settings => .ok ({ s with settings }, .settings settings)
    | .error e => .error (.failed (.settings e))

/-- The session after a command and what the command told. -/
def advance (s : Session α) (c : Command α) : Session α × Except (Error α) (Answer α) :=
  match s.step c with
  | .ok (next, answer) => (next, .ok answer)
  | .error e => (s, .error e)

/-- After each command of a row, what it told and the session as it then was. -/
def run (s : Session α) : List (Command α) → List (Session α × Except (Error α) (Answer α))
  | [] => []
  | c :: rest =>
    let next := s.advance c
    next :: run next.1 rest

end

end Session

end Formula
