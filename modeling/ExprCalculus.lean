import ExprCalculus.Calculator.Basic
import ExprCalculus.Calculator.Command
import ExprCalculus.Calculator.Datum
import ExprCalculus.CommandLine.Basic
import ExprCalculus.CommandLine.Options
import ExprCalculus.Derivative
import ExprCalculus.Evaluation.Basic
import ExprCalculus.Evaluation.Domain
import ExprCalculus.Evaluation.Env
import ExprCalculus.Expr.Basic
import ExprCalculus.Expr.Build
import ExprCalculus.Expr.Display
import ExprCalculus.Expr.Expansion
import ExprCalculus.Expr.Kinds
import ExprCalculus.Expr.Nested
import ExprCalculus.Expr.Parameter
import ExprCalculus.Form.Approx
import ExprCalculus.Form.Basic
import ExprCalculus.Form.Coefficient
import ExprCalculus.Form.Display
import ExprCalculus.Form.Facts
import ExprCalculus.Form.Function
import ExprCalculus.Form.OfExpr
import ExprCalculus.Form.Order
import ExprCalculus.Form.Partial
import ExprCalculus.Form.Power
import ExprCalculus.Form.Product
import ExprCalculus.Form.Ratio
import ExprCalculus.Form.Reduce
import ExprCalculus.Form.Reducer
import ExprCalculus.Form.Substitute
import ExprCalculus.Form.Sum
import ExprCalculus.Form.ToExpr
import ExprCalculus.Grammar.Parser
import ExprCalculus.Grammar.Token
import ExprCalculus.Main
import ExprCalculus.Number.Basic
import ExprCalculus.Number.Binary64
import ExprCalculus.Number.Decimal
import ExprCalculus.Number.Factor
import ExprCalculus.Number.FixedPoint
import ExprCalculus.Number.Numeral
import ExprCalculus.Number.Power
import ExprCalculus.Number.Rounding
import ExprCalculus.Scope.Build
import ExprCalculus.Scope.Store
import ExprCalculus.Simplify
import ExprCalculus.Text.Character
import ExprCalculus.Text.Quoted
import ExprCalculus.Value.Basic
import ExprCalculus.Value.Fault
import ExprCalculus.Value.Interval
import ExprCalculus.Value.Literal
import ExprCalculus.Value.Real
import ExprCalculus.Value.Scalar
import ExprCalculus.Proofs.Grammar.Language
import ExprCalculus.Proofs.Grammar.Soundness
import ExprCalculus.Proofs.Grammar.Completeness
import ExprCalculus.Proofs.Grammar.Acceptance
import ExprCalculus.Proofs.Grammar.Cutting
import ExprCalculus.Proofs.Grammar.RoundTrip
import ExprCalculus.Proofs.Derivative.Interpretation
import ExprCalculus.Proofs.Derivative.Series
import ExprCalculus.Proofs.Derivative.Correctness
import ExprCalculus.Proofs.Simplify.Semantics
import ExprCalculus.Proofs.Simplify.Reals
import ExprCalculus.Proofs.Simplify.Correctness
import ExprCalculus.Proofs.Number.Sign
import ExprCalculus.Proofs.Simplify.Weight
import ExprCalculus.Proofs.Simplify.Hereditary
import ExprCalculus.Proofs.Simplify.Settling
import ExprCalculus.Proofs.Interval.Rational
import ExprCalculus.Proofs.Interval.Operations
import ExprCalculus.Proofs.Interval.Enclosure
import ExprCalculus.Proofs.Derivative.Closure
import ExprCalculus.Proofs.Grammar.Positions
import ExprCalculus.Proofs.Grammar.Rewriting
import ExprCalculus.Proofs.Grammar.Stopping
import ExprCalculus.Proofs.Grammar.Refusal
import ExprCalculus.Proofs.Grammar.Location
import ExprCalculus.Proofs.Number.RealArithmetic
import ExprCalculus.Proofs.Evaluation.Kind
import ExprCalculus.Proofs.Evaluation.RealValue
import ExprCalculus.Proofs.Number.Interchange
import ExprCalculus.Proofs.Evaluation.SameWorth
import ExprCalculus.Proofs.Evaluation.Names
import ExprCalculus.Proofs.Evaluation.FreeNames
import ExprCalculus.Proofs.Evaluation.Componentwise
import ExprCalculus.Proofs.Evaluation.Expectation
import ExprCalculus.Proofs.Number.Integral
import ExprCalculus.Proofs.Evaluation.Faults
import ExprCalculus.Proofs.Evaluation.Depth
import ExprCalculus.Proofs.Evaluation.Reach
import ExprCalculus.Proofs.Evaluation.Acyclic
import ExprCalculus.Proofs.Evaluation.Origin
import ExprCalculus.Proofs.Evaluation.Substitution
import ExprCalculus.Proofs.Evaluation.Polynomial
import ExprCalculus.Proofs.Scope.Session
import ExprCalculus.Proofs.Derivative.Composition
import ExprCalculus.Proofs.Simplify.Composition
import ExprCalculus.Proofs.CommandLine.Bindings
import ExprCalculus.Proofs.CommandLine.Containment
import ExprCalculus.Proofs.Derivative.Vanishing
import ExprCalculus.Proofs.Simplify.Redex
import ExprCalculus.Proofs.Grammar.Juxtaposition
import ExprCalculus.Proofs.Evaluation.CompositionNames
import ExprCalculus.Proofs.Interval.Range
import ExprCalculus.Proofs.Interval.PowerRange
import ExprCalculus.Proofs.Derivative.Calls
import ExprCalculus.Proofs.Evaluation.Associativity
import ExprCalculus.Proofs.Grammar.Numerals
import ExprCalculus.Proofs.Grammar.Lexemes
import ExprCalculus.Proofs.Grammar.Layout
import ExprCalculus.Proofs.Grammar.Spacing
import ExprCalculus.Proofs.Grammar.Commas
import ExprCalculus.Proofs.CommandLine.ReadBack
import ExprCalculus.Proofs.Evaluation.RealNumbers
import ExprCalculus.Proofs.Form.Meaning
import ExprCalculus.Proofs.Form.Building
import ExprCalculus.Proofs.Form.Correctness
