import ExprCalculus.Number.Binary64

/-!
# Rounding to integers, and remainders

The integer parts and the remainder of machine numbers, computed from their exact values.
-/

namespace ExprCalculus

namespace Dyadic

/-- The greatest integer that is not above the value. -/
def floor (d : Dyadic) : Int :=
  if 0 ≤ d.exponent then d.signed * twoPow d.exponent.toNat
  else Int.fdiv d.signed (twoPow (-d.exponent).toNat)

/-- The least integer that is not below the value. -/
def ceil (d : Dyadic) : Int := -floor { d with negative := !d.negative }

/-- The integer that the value is. -/
def integer? (d : Dyadic) : Option Int :=
  if floor d = ceil d then some (floor d) else none

/-- The remainder of the sizes of two numbers, with the sign of the first. -/
def remainder (a b : Dyadic) : Dyadic :=
  let e := min a.exponent b.exponent
  ⟨a.negative, (a.scaled e).natAbs % (b.scaled e).natAbs, e⟩

end Dyadic

namespace Binary64

/-- The integer that a machine number is. -/
def integer? (x : Float) : Option Int := (Dyadic.ofFloat? x).bind Dyadic.integer?

/-- Applies a rounding to the exact value; the infinities and what is not a number stay. -/
def rounded (round : Dyadic → Int) (x : Float) : Float :=
  match Dyadic.ofFloat? x with
  | some d => (Dyadic.ofInt (round d)).toFloat
  | none => x

/-- The greatest integer that is not above the number. -/
def floor : Float → Float := rounded Dyadic.floor

/-- The least integer that is not below the number. -/
def ceil : Float → Float := rounded Dyadic.ceil

/-- The sign of a number, as `-1`, `0` or `1`; what is not a number stays. -/
def sign (x : Float) : Float :=
  if x.isNaN then x else if 0 < x then 1 else if x < 0 then -1 else 0

/-- The remainder of a quotient with the sign of the divisor, also where it is zero.  There is none by
zero or of a number that is not finite; the remainder by an infinity of the other sign is that infinity. -/
def modulo (a b : Float) : Float :=
  match Dyadic.ofFloat? a with
  | none => undefinedReal
  | some da =>
    match Dyadic.ofFloat? b with
    | none =>
      if b.isNaN then undefinedReal
      else if a == 0 then (if b < 0 then -0.0 else 0.0)
      else if (b < 0) = (a < 0) then a
      else b
    | some db =>
      if db.mantissa = 0 then undefinedReal
      else
        let r := da.remainder db
        if r.mantissa = 0 then (if db.negative then -0.0 else 0.0)
        else if r.negative = db.negative then r.toFloat
        else r.toFloat + b

end Binary64

end ExprCalculus
