import Formula.Draft
import Formula.Failure
import Formula.FiniteDifference
import Formula.Session
import Formula.Text.Offset
import Formula.Tour
import Formula.Proofs.Exact.Value
import Formula.Proofs.Simplification.Steps
import Formula.Proofs.Simplification.Settled
import Formula.Proofs.Exact.Simplification
import Formula.Proofs.Exact.Differentiation
import Formula.Proofs.Bracket.Balance
import Formula.Proofs.Bracket.Outside
import Formula.Proofs.Text
import Formula.Proofs.Literal
import Formula.Proofs.Reading.Dissection
import Formula.Proofs.Reading.Parse
import Formula.Proofs.Reading.Grammar
import Formula.Proofs.Reading.Juxtaposition
import Formula.Proofs.Reading.Entry
import Formula.Proofs.Reading.Operand
import Formula.Proofs.Reading.Chain
import Formula.Proofs.Reading.Run
import Formula.Proofs.Reading.Adjacent
import Formula.Proofs.Decimal
import Formula.Proofs.Reading.Omission
import Formula.Proofs.Reading.Level
import Formula.Proofs.Writing.Spelling
import Formula.Proofs.Writing.Row
import Formula.Proofs.Writing.Rereading
import Formula.Proofs.Scalar
import Formula.Proofs.Machine.Rounding
import Formula.Proofs.Machine.Word
import Formula.Proofs.Machine.Arithmetic
import Formula.Proofs.Machine.Scientific
import Formula.Proofs.Machine.Shortest
import Formula.Proofs.Machine.ReadBack
import Formula.Proofs.Reading.Outcome
import Formula.Proofs.Simplification.Preservation
import Formula.Proofs.Writing.RoundTrip
import Formula.Proofs.Simplification.Heft
import Formula.Proofs.Simplification.Stability
import Formula.Proofs.Writing.Legibility
import Formula.Proofs.Machine.Value
import Formula.Proofs.Writing.Meaning
import Formula.Proofs.Reading.Places
import Formula.Proofs.Reading.Faults
import Formula.Proofs.Expr.Operations
import Formula.Proofs.Expr.Kinds
import Formula.Proofs.Expr.Reordered
import Formula.Proofs.Simplification.Reduced
import Formula.Proofs.Simplification.Reordering
import Formula.Proofs.Document.Table
import Formula.Proofs.Document.Layout
import Formula.Proofs.Document.Comment
import Formula.Proofs.Document.Reading
import Formula.Proofs.Expr.Sameness
import Formula.Proofs.Simplification.Calls
import Formula.Proofs.Literal.Shape
import Formula.Proofs.Reading.Parts
import Formula.Proofs.Reading.Scientific
import Formula.Proofs.Bracket.Count
import Formula.Proofs.Reading.Errors
import Formula.Proofs.Expr.Substitution
import Formula.Proofs.Expr.Foreign
import Formula.Proofs.Exact.Polynomial
import Formula.Proofs.Settings
import Formula.Proofs.Bracket.Partner
import Formula.Proofs.Reading.Descent
import Formula.Proofs.Reading.Letters
import Formula.Proofs.Reading.Insertion
import Formula.Proofs.Reading.Literals
import Formula.Proofs.Session
