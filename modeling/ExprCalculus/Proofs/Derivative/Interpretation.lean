import Mathlib.RingTheory.Derivation.Basic
import Mathlib.Tactic.FieldSimp
import Mathlib.Tactic.LinearCombination
import ExprCalculus.Derivative

/-!
# Trees as elements of a differential field

A `Calculus` is a field with a derivation and with functions that obey the usual table of derivatives.  Trees
of literals, variables, operations and default functions stand for elements of the field; the functions that
are written by others in the table are read in that way.

A rule is only asked for where its argument is admissible: `LnArg` says which arguments a logarithm takes and
`PowBase` which base goes with an exponent.
-/

namespace ExprCalculus

/-- A differential field with functions that have the usual derivatives. -/
structure Calculus (K : Type*) [Field K] where
  D : Derivation ℤ K K
  /-- the value of a machine number -/
  real : Float → K
  exp : K → K
  ln : K → K
  pow : K → K → K
  sin : K → K
  cos : K → K
  arcsin : K → K
  arccos : K → K
  arctan : K → K
  ceil : K → K
  floor : K → K
  sgn : K → K
  /-- the admissible arguments of the logarithm -/
  LnArg : K → Prop
  /-- the admissible bases for an exponent -/
  PowBase : K → K → Prop
  D_real : ∀ x, D (real x) = 0
  D_exp : ∀ u, D (exp u) = exp u * D u
  D_ln : ∀ u, LnArg u → D (ln u) = D u / u
  D_sin : ∀ u, D (sin u) = cos u * D u
  D_cos : ∀ u, D (cos u) = -sin u * D u
  D_arcsin : ∀ u, D (arcsin u) = D u / pow (1 - pow u 2) (1 / 2)
  D_arccos : ∀ u, D (arccos u) = -D u / pow (1 - pow u 2) (1 / 2)
  D_arctan : ∀ u, D (arctan u) = D u / (1 + pow u 2)
  D_pow : ∀ u c, D c = 0 → PowBase u c → D u = 0 ∨ PowBase u (c - 1) →
    D (pow u c) = c * pow u (c - 1) * D u
  pow_eq_exp : ∀ u w, LnArg u → pow u w = exp (w * ln u)
  D_ceil : ∀ u, D (ceil u) = 0
  D_floor : ∀ u, D (floor u) = 0
  D_sgn : ∀ u, D (sgn u) = 0

namespace Calculus

variable {K : Type*} [Field K] (M : Calculus K) (ρ : String → K)

/-- The value of a literal. -/
def literal : Num → K
  | .int n => n
  | .float x => M.real x

/-- The value of an operation. -/
def operation (op : BinOp) (u w : K) : K :=
  match op with
  | .plus => u + w
  | .minus => u - w
  | .times => u * w
  | .divide => u / w
  | .power => M.pow u w
  | .modulo => u - M.floor (u / w) * w

/-- The value of a default function. -/
def function (fn : Fn) (u : K) : K :=
  match fn with
  | .exp => M.exp u
  | .ln => M.ln u
  | .sqrt => M.pow u (1 / 2)
  | .sin => M.sin u
  | .cos => M.cos u
  | .tan => M.sin u / M.cos u
  | .arcsin => M.arcsin u
  | .arccos => M.arccos u
  | .arctan => M.arctan u
  | .abs => M.sgn u * u
  | .ceil => M.ceil u
  | .floor => M.floor u
  | .sgn => M.sgn u

/-- The value of a tree, where `ρ` gives the values of the variables. -/
def value : Expr → K
  | .number v => M.literal v
  | .var x => ρ x
  | .fixed e => value e
  | .binary op a b => M.operation op (value a) (value b)
  | .neg a => -value a
  | .apply fn a => M.function fn (value a)
  | .log base a => M.ln (value a) / M.ln (value base)
  | .root n a => M.pow (value a) (1 / n)
  | _ => 0

/-- Whether an operation is applied to admissible operands: a divisor is not zero and a base goes with its
exponent. -/
def AdmitsOperands (op : BinOp) (u w : K) : Prop :=
  match op with
  | .divide | .modulo => w ≠ 0
  | .power => M.PowBase u w
  | _ => True

/-- Whether a default function is applied to an admissible argument. -/
def AdmitsArgument (fn : Fn) (u : K) : Prop :=
  match fn with
  | .ln => M.LnArg u
  | .sqrt => M.PowBase u (1 / 2)
  | .tan => M.cos u ≠ 0
  | _ => True

/-- Whether every divisor, every base of a power and every argument of a logarithm in a tree is admissible. -/
def Admissible : Expr → Prop
  | .number _ | .var _ => True
  | .fixed e => Admissible e
  | .binary op a b => Admissible a ∧ Admissible b ∧ M.AdmitsOperands op (M.value ρ a) (M.value ρ b)
  | .neg a => Admissible a
  | .apply fn a => Admissible a ∧ M.AdmitsArgument fn (M.value ρ a)
  | .log base a => Admissible base ∧ Admissible a ∧ M.LnArg (M.value ρ a) ∧ M.LnArg (M.value ρ base) ∧
      M.ln (M.value ρ base) ≠ 0
  | .root n a => Admissible a ∧ M.PowBase (M.value ρ a) (1 / n)
  | _ => False

end Calculus

namespace Expr

/-- Trees of literals, variables, operations and default functions, in which an exponent that is a literal is
an integer. -/
inductive Elementary : Expr → Prop
  | number (v : Num) : Elementary (.number v)
  | var (x : String) : Elementary (.var x)
  | fixed {e : Expr} (he : Elementary e) : Elementary (.fixed e)
  | binary (op : BinOp) {a b : Expr} (ha : Elementary a) (hb : Elementary b)
    (hexp : op = .power → ∀ x, b ≠ .number (.float x)) : Elementary (.binary op a b)
  | neg {a : Expr} (ha : Elementary a) : Elementary (.neg a)
  | apply (fn : Fn) {a : Expr} (ha : Elementary a) : Elementary (.apply fn a)
  | log {base a : Expr} (hbase : Elementary base) (ha : Elementary a) : Elementary (.log base a)
  | root (n : Nat) {a : Expr} (ha : Elementary a) : Elementary (.root n a)

end Expr

end ExprCalculus
