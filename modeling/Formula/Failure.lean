import Formula.Expr.Writing
import Formula.Settings

/-!
# Failures

All ways in which work on a formula can fail, and the whole way from a document with settings and
the text of a formula to the value of its derivative.
-/

namespace Formula

/-- A failure at some stage of the work. -/
inductive Failure (α : Type)
  | parse (e : ParseError)
  | evaluation (e : EvaluationError α)
  | settings (e : SettingsError)

namespace Failure

variable {α : Type} [Numeral α]

/-- The report of a failure. -/
def message : Failure α → String
  | parse e => "Parsing error: " ++ e.message
  | evaluation e => "Evaluation error: " ++ e.message
  | settings e => "Configuration error: " ++ e.message

/-- The report of the cause, for failures that have one beneath them. -/
def source? : Failure α → Option String
  | parse e => some e.message
  | evaluation e => some e.message
  | settings _ => none

end Failure

/-- The derivative of a formula under the settings of a document, and the value of the
derivative. -/
def deriveAndEvaluate {α : Type} [Numeral α] (document : List Char) (text : String)
    (b : Bindings α) :
    Except (Failure α) (Expr α × α) := do
  let settings ← (Settings.ofDocument document).mapError .settings
  let e ← (settings.parse text).mapError .parse
  let d := settings.derivative e
  let value ← (d.evaluate b).mapError .evaluation
  return (d, value)

end Formula
