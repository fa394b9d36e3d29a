import ExprCalculus.Number.FixedPoint

/-!
# Small factors and perfect powers

A natural number is divided by the numbers below a limit as often as possible; what remains counts as one
factor.  From the factors follow the integer part of a root and the number a power is taken of.
-/

namespace ExprCalculus.Factor

/-- How often a divisor goes into a number, and what remains. -/
def divideOut (d : Nat) : Nat → Nat → Nat × Nat
  | 0, n => (0, n)
  | fuel + 1, n =>
    if n % d = 0 then
      let (k, m) := divideOut d fuel (n / d)
      (k + 1, m)
    else (0, n)

/-- The multiplicity of a divisor of at least two in a number other than zero. -/
def multiplicity (d n : Nat) : Nat := (divideOut d (n.log2 + 1) n).1

/-- The factors of a number from `d` on with their multiplicities, latest first, and what remains. -/
def smallFactorsFrom : Nat → Nat → Nat → List (Nat × Nat) → List (Nat × Nat) × Nat
  | 0, _, n, found => (found, n)
  | fuel + 1, d, n, found =>
    if n < d * d then (found, n)
    else
      let (k, m) := divideOut d (n.log2 + 1) n
      smallFactorsFrom fuel (d + 1) m (if k = 0 then found else (d, k) :: found)

/-- The greatest divisor that is tried. -/
def limit : Nat := 32768

/-- The factors of a positive number with their multiplicities, in ascending order; a factor that is left
over stands last. -/
def factors (n : Nat) : List (Nat × Nat) :=
  let (found, rest) := smallFactorsFrom limit 2 n []
  found.reverse ++ (if rest = 1 then [] else [(rest, 1)])

/-- The greatest exponent of at least two, and not above the given one, to which a number is a power. -/
def greatestExponent (n : Nat) : Nat → Nat
  | 0 => 1
  | k + 1 =>
    if k + 1 < 2 then 1
    else if Nat.pow (FixedPoint.natRoot n (k + 1)) (k + 1) = n then k + 1
    else greatestExponent n k

/-- Base and exponent of a perfect power, the exponent being as great as possible.  A factor that is left over
has only divisors above the limit, which bounds the exponents to be tried. -/
def perfectPower? (n : Nat) : Option (Nat × Nat) :=
  if n < 4 then none
  else
    let (found, rest) := smallFactorsFrom limit 2 n []
    let restExponent := if rest = 1 then 0 else greatestExponent rest (rest.log2 / 15)
    let k := found.foldl (fun g f => Nat.gcd g f.2) restExponent
    if k < 2 then none else some (FixedPoint.natRoot n k, k)

/-- The root of a number that is a perfect power. -/
def exactRoot? (n k : Nat) : Option Nat :=
  let x := FixedPoint.natRoot n k
  if Nat.pow x k = n then some x else none

end ExprCalculus.Factor
