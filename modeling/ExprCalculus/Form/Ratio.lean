import ExprCalculus.Number.Basic

/-!
# Ratios

Exact quotients of integers in lowest terms, the coefficients and exponents of algebraic forms.
-/

namespace ExprCalculus

/-- A quotient, in lowest terms with a positive denominator when made by `Ratio.make`. -/
structure Ratio where
  num : Int
  den : Nat
  deriving DecidableEq, Repr

namespace Ratio

/-- The quotient in lowest terms. -/
def make (num : Int) (den : Nat) : Ratio :=
  let g := num.natAbs.gcd den
  if g = 0 then ⟨num, den⟩ else ⟨num / g, den / g⟩

/-- An integer as a quotient. -/
def ofInt (n : Int) : Ratio := ⟨n, 1⟩

/-- Sum. -/
def add (a b : Ratio) : Ratio := make (a.num * b.den + b.num * a.den) (a.den * b.den)

/-- Product. -/
def mul (a b : Ratio) : Ratio := make (a.num * b.num) (a.den * b.den)

/-- Negative. -/
def neg (a : Ratio) : Ratio := ⟨-a.num, a.den⟩

/-- Reciprocal of a quotient that is not zero. -/
def inverse (a : Ratio) : Ratio :=
  if a.num < 0 then ⟨-(a.den : Int), a.num.natAbs⟩ else ⟨a.den, a.num.natAbs⟩

/-- Natural power. -/
def pow (a : Ratio) (n : Nat) : Ratio := ⟨integerPower a.num n, Nat.pow a.den n⟩

/-- Whether one quotient is less than another. -/
def less (a b : Ratio) : Bool := a.num * b.den < b.num * a.den

/-- Whether the quotient is below zero. -/
def isNegative (a : Ratio) : Bool := a.num < 0

/-- The integer a quotient is. -/
def integer? (a : Ratio) : Option Int := if a.den = 1 then some a.num else none

/-- The greatest integer that is not above the quotient. -/
def floor (a : Ratio) : Int := Int.fdiv a.num a.den

/-- The least integer that is not below the quotient. -/
def ceil (a : Ratio) : Int := -floor a.neg

end Ratio

end ExprCalculus
