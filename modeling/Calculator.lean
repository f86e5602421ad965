import Calculator.Main
import Calculator.Proofs.Grammar.Equivalence
import Calculator.Proofs.Grammar.Completeness
import Calculator.Proofs.Scanning.Splice
import Calculator.Proofs.Scanning.Composition
import Calculator.Proofs.Substitution.Scanning
import Calculator.Proofs.Substitution.Chaining
import Calculator.Proofs.Decimal.Significant
import Calculator.Proofs.Decimal.Canonical
import Calculator.Proofs.Decimal.Layout
import Calculator.Proofs.Binary64.Value
import Calculator.Proofs.Display.Rendering
import Calculator.Proofs.Binary64.Bits
import Calculator.Proofs.Binary64.Nearest
import Calculator.Proofs.Decimal.Nearest
import Calculator.Proofs.Decimal.Stability
import Calculator.Proofs.Scanning.Numeral
import Calculator.Proofs.Display.ReadingBack
import Calculator.Proofs.Display.Denotation
import Calculator.Proofs.Display.Order
import Calculator.Proofs.Display.Typing
import Calculator.Proofs.Scanning.Analysis
import Calculator.Proofs.Rational.Rounding
import Calculator.Proofs.Grammar.Juxtaposition
import Calculator.Proofs.Binary64.Closest
import Calculator.Proofs.Scanning.Piece
import Calculator.Proofs.Scanning.MaximalMunch
import Calculator.Proofs.Scanning.Cutting
import Calculator.Proofs.Display.Numeral
import Calculator.Proofs.Calculation.Outcome
import Calculator.Proofs.CommandLine.Report
import Calculator.Proofs.Session.Run
import Calculator.Proofs.Decimal.Shortest
import Calculator.Proofs.Retyping.Enclosure
import Calculator.Proofs.Retyping.Number
import Calculator.Proofs.Retyping.Tokens
import Calculator.Proofs.Retyping.Text
import Calculator.Proofs.Grammar.Omission
import Calculator.Proofs.Grammar.Viability
import Calculator.Proofs.Grammar.Adjacency
import Calculator.Proofs.CommandLine.Conversation
import Calculator.Proofs.Binary64.Exact
import Calculator.Proofs.Binary64.Integer
import Calculator.Proofs.Display.Integer
import Calculator.Proofs.Calculation.Integer
import Calculator.Proofs.Binary64.Comparison
import Calculator.Proofs.Binary64.Closure
import Calculator.Proofs.Binary64.Sum
import Calculator.Proofs.Binary64.Remainder
import Calculator.Proofs.Elementary
import Calculator.Proofs.Expr.Subtrees
import Calculator.Proofs.Evaluation.Finiteness
import Calculator.Proofs.Angle.Residue
import Calculator.Proofs.Angle.Tangent
import Calculator.Proofs.Session.Format
import Calculator.Proofs.Session.Keys
import Calculator.Proofs.Angle.Reduction
import Calculator.Proofs.Angle.Turns
import Calculator.Proofs.Expr.Literal
import Calculator.Proofs.Expr.Unambiguous
import Calculator.Proofs.Evaluation.Fault
import Calculator.Proofs.Grammar.Names
import Calculator.Proofs.Calculation.Influence
import Calculator.Proofs.Decimal.Search
import Calculator.Proofs.Descent.Basic
import Calculator.Proofs.Descent.Bounds
import Calculator.Proofs.Descent.Agreement
import Calculator.Proofs.Descent.Limits
