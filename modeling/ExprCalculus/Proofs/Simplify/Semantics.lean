import ExprCalculus.Simplify
import ExprCalculus.Proofs.Number.Exact

/-!
# The exact meaning of a tree

A `PartialCalculus` is an ordered field with partial functions that obey the identities rewriting relies on.
The value of a tree in it is strict: a tree has a value if its parts have and the operation or the function at
its root is defined there.  Literals are read exactly, apart from the machine number that stands for Euler's
number.
-/

namespace ExprCalculus

/-- An ordered field with partial functions. -/
structure PartialCalculus (K : Type*) [Field K] [LinearOrder K] where
  /-- Euler's number -/
  e : K
  exp : K → Option K
  ln : K → Option K
  pow : K → K → Option K
  sqrt : K → Option K
  sin : K → Option K
  cos : K → Option K
  tan : K → Option K
  arcsin : K → Option K
  arccos : K → Option K
  arctan : K → Option K
  abs : K → Option K
  ceil : K → Option K
  floor : K → Option K
  sgn : K → Option K
  /-- the logarithm to a base -/
  log : K → K → Option K
  root : Nat → K → Option K
  exp_zero : exp 0 = some 1
  exp_one : exp 1 = some e
  ln_one : ln 1 = some 0
  ln_pos : ∀ {u w}, ln u = some w → 0 < u
  exp_mul_ln : ∀ {u w y z}, 0 < u → ln u = some w → exp (y * w) = some z → pow u y = some z
  pow_zero : ∀ u, pow u 0 = some 1
  pow_one : ∀ u, pow u 1 = some u
  one_pow : ∀ w, pow 1 w = some 1
  sqrt_zero : sqrt 0 = some 0
  sqrt_one : sqrt 1 = some 1
  sqrt_square : ∀ {u w}, 0 ≤ u → pow u 2 = some w → sqrt w = some u
  sin_zero : sin 0 = some 0
  cos_zero : cos 0 = some 1
  tan_zero : tan 0 = some 0
  ceil_integer : ∀ {u w}, ceil u = some w → ∃ n : ℤ, w = n
  ceil_intCast : ∀ n : ℤ, ceil n = some (n : K)
  floor_integer : ∀ {u w}, floor u = some w → ∃ n : ℤ, w = n
  floor_intCast : ∀ n : ℤ, floor n = some (n : K)

namespace PartialCalculus

open ExprCalculus.Expr

variable {K : Type*} [Field K] [LinearOrder K] (M : PartialCalculus K) (ρ : String → Option K)

/-- The value of a literal.  Euler's number is exact, with either sign. -/
def literal? (n : Num) : Option K :=
  if n = .euler then some M.e
  else if n = Num.euler.negate then some (-M.e)
  else n.rational?.map (↑)

/-- The value of an operation. -/
def operation? (op : BinOp) (u w : K) : Option K :=
  match op with
  | .plus => some (u + w)
  | .minus => some (u - w)
  | .times => some (u * w)
  | .divide => if w = 0 then none else some (u / w)
  | .power => M.pow u w
  | .modulo => if w = 0 then none else (M.floor (u / w)).map fun n => u - n * w

/-- A default function. -/
def function? : Fn → K → Option K
  | .exp => M.exp
  | .ln => M.ln
  | .sqrt => M.sqrt
  | .sin => M.sin
  | .cos => M.cos
  | .tan => M.tan
  | .arcsin => M.arcsin
  | .arccos => M.arccos
  | .arctan => M.arctan
  | .abs => M.abs
  | .ceil => M.ceil
  | .floor => M.floor
  | .sgn => M.sgn

/-- The value of a tree, where `ρ` gives the values of the variables. -/
def value? : Expr → Option K
  | .number n => M.literal? n
  | .var x => ρ x
  | .fixed e => value? e
  | .binary op a b => (value? a).bind fun u => (value? b).bind fun w => M.operation? op u w
  | .neg a => (value? a).map fun u => -u
  | .apply fn a => (value? a).bind (M.function? fn)
  | .log base a => (value? base).bind fun u => (value? a).bind fun w => M.log u w
  | .root n a => (value? a).bind (M.root n)
  | _ => none

/-- Whether a base is not negative where it has a value, should the tree be its square. -/
def SquareOfNonneg (e : Expr) : Prop :=
  ∀ b n u, e = power b n → n.isValue 2 = true → M.value? ρ b = some u → 0 ≤ u

/-- Whether every square under a square root, once simplified, is one of a base that is not negative. -/
def RootsOfNonneg : Expr → Prop
  | .fixed e => RootsOfNonneg e
  | .binary _ a b => RootsOfNonneg a ∧ RootsOfNonneg b
  | .neg a => RootsOfNonneg a
  | .apply fn a => RootsOfNonneg a ∧ (fn = .sqrt → M.SquareOfNonneg ρ (simplify a))
  | .log base a => RootsOfNonneg base ∧ RootsOfNonneg a
  | .root _ a => RootsOfNonneg a
  | _ => True

end PartialCalculus

end ExprCalculus
