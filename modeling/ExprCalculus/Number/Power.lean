import ExprCalculus.Number.Rounding

/-!
# Powers of machine numbers

The special cases of a power are decided here, so that `Float.pow` is left with a finite positive base
other than one and a finite exponent other than zero.
-/

namespace ExprCalculus.Binary64

/-- What a power of machine numbers comes to. -/
inductive Power where
  | real (x : Float)
  /-- zero to a negative power -/
  | infinite
  /-- beyond the range of machine numbers -/
  | overflow
  /-- a negative number to a power that is not an integer; whether its size is beyond the range -/
  | complex (overflow : Bool)

/-- Whether a machine number is an odd integer. -/
def isOdd (x : Float) : Bool :=
  match integer? x with
  | some n => n % 2 = 1
  | none => false

/-- The size of a number. -/
def size (x : Float) : Float := if x < 0 then -x else if x == 0 then 0.0 else x

/-- A power of an exponent that is infinite. -/
def infiniteExponent (base exponent : Float) : Float :=
  let s := size base
  if s == 1 then 1
  else if (0 < exponent) = (1 < s) then infinity
  else 0.0

/-- A power of a base that is infinite. -/
def infiniteBase (base exponent : Float) : Float :=
  let s := if 0 < exponent then infinity else 0.0
  if isOdd exponent && base < 0 then -s else s

/-- A power of a finite base other than zero, to a finite exponent other than zero. -/
def finitePower (base exponent : Float) : Power :=
  let s := size base
  let x := if s == 1 then 1 else Float.pow s exponent
  if base < 0 ∧ integer? exponent = none then .complex x.isInf
  else if x.isInf then .overflow
  else .real (if base < 0 ∧ isOdd exponent then -x else x)

/-- A power of machine numbers. -/
def pow (base exponent : Float) : Power :=
  if exponent == 0 then .real 1
  else if base.isNaN then .real base
  else if exponent.isNaN then .real (if base == 1 then 1 else exponent)
  else if exponent.isInf then .real (infiniteExponent base exponent)
  else if base.isInf then .real (infiniteBase base exponent)
  else if base == 0 then
    if exponent < 0 then .infinite else .real (if isOdd exponent then base else 0.0)
  else finitePower base exponent

/-- A power in real arithmetic.  It is not a number where the base is negative and the exponent finite but no integer.
Zero to a negative power is infinite; what is out of range is an infinity, which is negative for an odd power of a
negative base.  Whether the power is odd is given apart, for exponents that are rounded. -/
def roundedPower (odd : Bool) (base exponent : Float) : Power :=
  if base < 0 ∧ exponent.isFinite ∧ integer? exponent = none then .real undefinedReal
  else
    match pow base exponent with
    | .infinite => .real infinity
    | .overflow => .real (if base < 0 ∧ odd then -infinity else infinity)
    | p => p

/-- A power of machine numbers in real arithmetic. -/
def realPower (base exponent : Float) : Power := roundedPower (isOdd exponent) base exponent

end ExprCalculus.Binary64
