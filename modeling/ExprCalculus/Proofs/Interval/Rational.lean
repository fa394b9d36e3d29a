import ExprCalculus.Evaluation.Basic
import ExprCalculus.Proofs.Number.Exact

/-!
# Exact arithmetic

The rational numbers as numbers to calculate with.  A quotient by zero is refused, as is a negative power of zero.
The values of a default function and the powers that are not integer need not be rational: what they are is left to
`Exact.Functions`, and `Exact.algebraic` refuses them.
-/

namespace ExprCalculus

namespace Exact

/-- The functions and the powers of rational numbers that arithmetic does not settle. -/
class Functions where
  function : Fn → ℚ → Except (Fault ℚ) ℚ
  fractionalPower : ℚ → ℚ → Except (Fault ℚ) ℚ

/-- A quotient; there is none by zero. -/
def quotient (x y : ℚ) : Except (Fault ℚ) ℚ := if y = 0 then .error .divisionByZero else .ok (x / y)

/-- The integer that a rational number is. -/
def integer? (x : ℚ) : Option Int := if x.den = 1 then some x.num else none

/-- An integer power; there is no negative one of zero. -/
def intPower (x : ℚ) (n : Int) : Except (Fault ℚ) ℚ :=
  if x = 0 ∧ n < 0 then .error .zeroToNegative else .ok (x ^ n)

instance [Functions] : Scalar ℚ where
  ofNum? := Num.rational?
  zero := 0
  one := 1
  less x y := x < y
  atMost x y := x ≤ y
  divide := quotient
  power x y :=
    match integer? y with
    | some n => intPower x n
    | none => Functions.fractionalPower x y
  modulo x y := if y = 0 then .error .divisionByZero else .ok (x - ⌊x / y⌋ * y)
  function := Functions.function
  reciprocal := quotient 1
  integer? := integer?
  naturalPower x n := .ok (x ^ n)
  fractionalPower := Functions.fractionalPower

@[simp] theorem integer?_intCast (n : Int) : integer? (n : ℚ) = some n := by simp [integer?]

theorem power_intCast [Functions] (x : ℚ) (n : Int) : Scalar.power x (n : ℚ) = intPower x n := by
  have h : Scalar.power x (n : ℚ) = match integer? (n : ℚ) with
    | some k => intPower x k
    | none => Functions.fractionalPower x n := rfl
  rw [h, integer?_intCast]

/-- The default functions that have rational values; the others and all fractional powers are refused. -/
instance algebraic : Functions where
  function
    | .abs, x => .ok |x|
    | .ceil, x => .ok ⌈x⌉
    | .floor, x => .ok ⌊x⌋
    | .sgn, x => .ok (SignType.sign x)
    | _, _ => .error .outOfRange
  fractionalPower _ _ := .error .outOfRange

end Exact

end ExprCalculus
