import Formula.Failure
import Formula.FiniteDifference
import Formula.Text.Quoted

/-!
# A tour of the library

Six short demonstrations, as the lines of text that they show: reading and writing, derivatives,
bindings, simplification, settings from a document, and failures.
-/

namespace Formula.Tour

/-- The lines of a demonstration. -/
abbrev Lines := Except (Failure Float) (List String)

/-- The formula that a text is. -/
def formula (text : String) : Except (Failure Float) (Expr Float) :=
  (Expr.parse text).mapError .parse

/-- The value of an expression, as text. -/
def valueText (e : Expr Float) (b : Bindings Float) : Except (Failure Float) String := do
  let value ← (e.evaluate b).mapError .evaluation
  return String.ofList (Numeral.text value)

/-- A character between single quotes. -/
def charText (c : Char) : String :=
  "'" ++ String.singleton c ++ "'"

/-- A tree by the names of its nodes. -/
def outline : Expr Float → String
  | .num value => "Number(" ++ String.ofList (Numeral.text value) ++ ")"
  | .var id => "Var(" ++ charText id ++ ")"
  | .const id => "Const(" ++ charText id ++ ")"
  | .add l r => "Add(" ++ outline l ++ ", " ++ outline r ++ ")"
  | .sub l r => "Sub(" ++ outline l ++ ", " ++ outline r ++ ")"
  | .mul l r => "Mul(" ++ outline l ++ ", " ++ outline r ++ ")"
  | .div l r => "Div(" ++ outline l ++ ", " ++ outline r ++ ")"
  | .pow l r => "Pow(" ++ outline l ++ ", " ++ outline r ++ ")"
  | .log l r kind =>
    let name := match kind with
      | .natural => "Natural"
      | .ten => "Ten"
      | .general => "General"
    "Log(" ++ outline l ++ ", " ++ outline r ++ ", " ++ name ++ ")"
  | .pending n d order =>
    "Differential(" ++ outline n ++ ", " ++ outline d ++ ", " ++ toString order ++ ")"
  | .sin a => "sin(" ++ outline a ++ ")"
  | .cos a => "cos(" ++ outline a ++ ")"
  | .tan a => "tan(" ++ outline a ++ ")"

/-- Settings by the names of their fields. -/
def settingsText (s : Settings) : String :=
  let level := match s.level with
    | none => "None"
    | some level => "Some(" ++ String.ofList (Text.quoted level) ++ ")"
  "EngineConfig \x7b rectify: " ++ toString s.restoreTimes ++ ", variable: " ++ charText s.wrt ++
    ", simplify_results: " ++ toString s.simplifyResults ++ ", loglevel: " ++ level ++ " \x7d"

/-- Reading and writing. -/
def reading : Lines := do
  let e ← formula "2x^2 + sin(xy) - ln(x)/(y+1)"
  let implicit ← formula "(x+1)(x-1)"
  let nested ← formula "x - (y + z)"
  return [
    " parsed_expression " ++ e.text,
    " fully bracketed " ++ e.fullText,
    "(x+1)(x-1) is read as " ++ implicit.text,
    "variables [" ++ ", ".intercalate (e.vars.map charText) ++ "]",
    "tree " ++ outline nested]

/-- Derivatives. Checking the first one by numbers must succeed. -/
def derivatives : Lines := do
  let f ← formula "x^3*sin(x) + e^(2x)"
  let d := f.derivative 'x'
  let _ ← (f.checkDerivative 'x' 0.0 2.0 100 1e-6).mapError .evaluation
  let g ← formula "x*y"
  return [
    "df_dx = " ++ d.text,
    "df_dx simplified = " ++ d.simplify.text,
    "d^3f/dx^3 = " ++ (f.nthDerivative 'x' 3).text,
    "d(xy)/dx = " ++ (g.derivative 'x').simplify.text]

/-- Bindings and substitution. -/
def bindings : Lines := do
  let e ← formula "x^2 + y*z"
  let some_ := Bindings.ofList [('x', 2.0), ('y', 3.0)]
  let all := some_.bindAll [('z', 0.5)]
  let x : Expr Float := .var 'x'
  let built := Expr.sub (.add (.pow x (.num 2.0)) (.pow (.const 'e') (.var 'y'))) x.ln
  let quotient ← formula "1/0"
  return [
    e.text ++ " at x=2, y=3, z unbound: " ++ (← valueText e some_),
    e.text ++ " with z=0.5: " ++ (← valueText e all),
    "expression_with_const = " ++ (e.setVariable 'y' 1.0).text,
    "built = " ++ built.text,
    "1/0 = " ++ (← valueText quotient {})]

/-- Simplification. -/
def simplification : Lines :=
  ["2+3", "x+x", "x*x", "x/x", "0/x", "(x+0)*1", "2x+3x", "x*y+x", "x^2*x^3", "x^3/x", "log[x](x)",
    "sin(0)+cos(x)"].mapM fun text => do
      return text ++ " -> " ++ (← formula text).simplify.text

/-- Settings from a document. -/
def settings : Lines := do
  let document := "
    // engine settings
    engine
    rectify: true
    variable: t
    simplify_results: true
    "
  let s ← (Settings.ofDocument document.toList).mapError .settings
  let e : Expr Float ← (s.parse "t^2 sin(t)").mapError .parse
  return ["config " ++ settingsText s, "d/dt " ++ e.text ++ " = " ++ (s.derivative e).text]

/-- Failures. -/
def failures : Lines := do
  let tries := ["(x+1", "x+1)", "x + #", "", "x+"].map fun text =>
    match (Expr.parse text : Except ParseError (Expr Float)) with
    | .ok e => "'" ++ text ++ "' parsed as " ++ e.text
    | .error e => "'" ++ text ++ "' rejected: " ++ e.message
  let marker := (← formula "y").derivative 'x'
  let report := match marker.value with
    | .ok _ => []
    | .error e => [marker.text ++ " cannot be evaluated: " ++ e.message]
  return tries ++ report

/-- The demonstration with a number. -/
def stop (n : Nat) : Lines :=
  match n with
  | 0 => reading
  | 1 => derivatives
  | 2 => bindings
  | 3 => simplification
  | 4 => settings
  | 5 => failures
  | _ => .ok ["example not found"]

/-- What the demonstration with a number shows. -/
def output (n : Nat) : String :=
  let lines := match stop n with
    | .ok lines => lines
    | .error e => ["example " ++ toString n ++ " failed: " ++ e.message]
  String.join (lines.map (· ++ "\n"))

end Formula.Tour
