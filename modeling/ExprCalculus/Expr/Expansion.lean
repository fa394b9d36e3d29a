import ExprCalculus.Expr.Basic

/-!
# One function written by others

A logarithm is a quotient of natural logarithms, a root is a power, a tangent is a quotient of sine and
cosine, and a power is an exponential of a product.
-/

namespace ExprCalculus.Expr

/-- A logarithm as a quotient of natural logarithms. -/
def logAsQuotient (base arg : Expr) : Expr :=
  divide (applyTo .ln arg.argumentValue) (applyTo .ln base.argumentValue)

/-- A root as a power with a unit fraction. -/
def rootAsPower (index : Nat) (arg : Expr) : Expr :=
  power arg.argumentValue (divide (int 1) (int index))

/-- A tangent as a quotient of sine and cosine. -/
def tanAsQuotient (arg : Expr) : Expr :=
  divide (applyTo .sin arg.argumentValue) (applyTo .cos arg.argumentValue)

/-- A power as an exponential. -/
def powerAsExponential (base exponent : Expr) : Expr :=
  applyTo .exp (times exponent (applyTo .ln base))

end ExprCalculus.Expr

namespace ExprCalculus

/-- The ways to write one function by others. -/
inductive Expansion where
  | naturalLogarithm
  | power
  | sinCos
  | exponential
  deriving DecidableEq, Repr

namespace Expansion

/-- The name of an expansion in messages. -/
def name : Expansion → String
  | .naturalLogarithm => "as_natural_logarithm"
  | .power => "as_power"
  | .sinCos => "as_sin_cos"
  | .exponential => "as_exponential"

/-- The expansion of a tree, if the tree has this one. -/
def expand? : Expansion → Expr → Option Expr
  | .naturalLogarithm, .log base a => some (.logAsQuotient base a)
  | .naturalLogarithm, .apply .ln a => some (.logAsQuotient (.number .euler) a)
  | .power, .root n a => some (.rootAsPower n a)
  | .power, .apply .sqrt a => some (.rootAsPower 2 a)
  | .sinCos, .apply .tan a => some (.tanAsQuotient a)
  | .exponential, .binary .power a b => some (.powerAsExponential a b)
  | _, _ => none

end Expansion

end ExprCalculus
