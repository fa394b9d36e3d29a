/-!
# The exact value of a machine number

A finite binary64 number is `± mantissa · 2 ^ exponent`.  `Dyadic.ofFloat?` reads those three off the
bits, and `Dyadic.nearest` goes the other way: it rounds a quotient of natural numbers to the nearest
machine number, a tie to the even one.
-/

namespace ExprCalculus

/-- A number `± mantissa · 2 ^ exponent`. -/
structure Dyadic where
  negative : Bool
  mantissa : Nat
  exponent : Int
  deriving DecidableEq, Repr

/-- A power of two. -/
def twoPow (n : Nat) : Nat := Nat.pow 2 n

/-- A power of ten. -/
def tenPow (n : Nat) : Nat := Nat.pow 10 n

/-- Positive infinity. -/
def infinity : Float := Float.ofBits 0x7ff0000000000000

/-- The value of an undefined operation. -/
def undefinedReal : Float := Float.ofBits 0x7ff8000000000000

namespace Dyadic

/-- The exact value of a finite machine number. -/
def ofFloat? (x : Float) : Option Dyadic :=
  let bits : Nat := x.toBits.toNat
  let field : Nat := bits / twoPow 52 % twoPow 11
  let fraction : Nat := bits % twoPow 52
  let negative := twoPow 63 ≤ bits
  if field = 2047 then none
  else if field = 0 then some ⟨negative, fraction, -1074⟩
  else some ⟨negative, twoPow 52 + fraction, field - 1075⟩

/-- The exact value of an integer. -/
def ofInt (n : Int) : Dyadic := ⟨n < 0, n.natAbs, 0⟩

/-- The mantissa with its sign. -/
def signed (d : Dyadic) : Int := if d.negative then -d.mantissa else d.mantissa

/-- The value as a multiple of `2 ^ e`, for an `e` that is not above the exponent. -/
def scaled (d : Dyadic) (e : Int) : Int := d.signed * twoPow (d.exponent - e).toNat

/-- Whether two numbers have the same value; the two zeros do. -/
def sameValue (a b : Dyadic) : Bool :=
  let e := min a.exponent b.exponent
  a.scaled e == b.scaled e

/-- The exponent at which a positive quotient has a 53 bit integer part, never below the least. -/
def quotientExponent (num den : Nat) : Int :=
  let guess : Int := num.log2 - den.log2 - 52
  let whole := if 0 ≤ guess then num / (den * twoPow guess.toNat) else num * twoPow (-guess).toNat / den
  max (if whole < twoPow 52 then guess - 1 else guess) (-1074)

/-- Quotient rounded to the nearest natural number, a tie to the even one. -/
def roundQuotient (num den : Nat) : Nat :=
  let whole := num / den
  let rest := num % den
  if den < 2 * rest ∨ (2 * rest = den ∧ whole % 2 = 1) then whole + 1 else whole

/-- The machine number nearest to `num / den`, infinity if that is out of range. -/
def nearest (num den : Nat) : Float :=
  if num = 0 then 0.0
  else
    let e := quotientExponent num den
    let rounded :=
      if 0 ≤ e then roundQuotient num (den * twoPow e.toNat)
      else roundQuotient (num * twoPow (-e).toNat) den
    let bits := (e + 1074).toNat * twoPow 52 + rounded
    Float.ofBits (min bits (2047 * twoPow 52)).toUInt64

/-- The machine number nearest to a dyadic number. -/
def toFloat (d : Dyadic) : Float :=
  let x :=
    if 0 ≤ d.exponent then nearest (d.mantissa * twoPow d.exponent.toNat) 1
    else nearest d.mantissa (twoPow (-d.exponent).toNat)
  if d.negative then -x else x

end Dyadic

/-- The machine number nearest to an integer; none if the integer is out of range. -/
def intToFloat? (n : Int) : Option Float :=
  let x := Dyadic.nearest n.natAbs 1
  if x.isInf then none else some (if n < 0 then -x else x)

end ExprCalculus
