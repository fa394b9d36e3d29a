import ExprCalculus.Number.Power
import ExprCalculus.Value.Scalar

/-!
# Machine numbers to calculate with

The quotient, the powers, the remainder and the functions that machine numbers come with are refused where they
are not defined or out of range.  Real arithmetic looks at the operands first or puts a value in place of the
refusal, so that it always has a value: what is not defined is not a number, and what is out of range is an
infinity.  Only a bound of an interval is calculated without that.
-/

namespace ExprCalculus.Binary64

/-! ## Operations that may be refused -/

/-- A quotient; there is none by zero. -/
def quotient (a b : Float) : Except (Fault Float) Float :=
  if b == 0 then .error .divisionByZero else .ok (a / b)

/-- A remainder with the sign of the divisor; there is none by zero. -/
def remainder (a b : Float) : Except (Fault Float) Float :=
  if b == 0 then .error .divisionByZero else .ok (modulo a b)

/-- What a power comes to as a number: it must be real and in range. -/
def Power.result : Power → Except (Fault Float) Float
  | .real x => .ok x
  | .infinite => .error .zeroToNegative
  | .overflow => .error .outOfRange
  | .complex large => .error (if large then .complexOutOfRange else .complexPower)

/-- A power that must be a real number in range. -/
def checkedPower (base exponent : Float) : Except (Fault Float) Float := (pow base exponent).result

/-- A natural power that must be in range. -/
def naturalPower (base : Float) (exponent : Nat) : Except (Fault Float) Float :=
  match intToFloat? exponent with
  | some x => checkedPower base x
  | none => .error .tooLarge

/-- A default function as the machine calculates it. -/
def machineFunction : Fn → Float → Float
  | .exp => Float.exp
  | .ln => Float.log
  | .sqrt => Float.sqrt
  | .sin => Float.sin
  | .cos => Float.cos
  | .tan => Float.tan
  | .arcsin => Float.asin
  | .arccos => Float.acos
  | .arctan => Float.atan
  | .abs => Float.abs
  | .ceil => ceil
  | .floor => floor
  | .sgn => sign

/-- Why a default function is refused. -/
inductive Refusal where
  /-- the function is not defined there, or has a pole -/
  | domain
  | range

/-- A default function that must have a number for the value of a number, and a finite one for a finite one.  Only
an exponential can be out of range; the others have poles. -/
def checkedFunction (fn : Fn) (x : Float) : Except Refusal Float :=
  let y := machineFunction fn x
  if y.isNaN && !x.isNaN then .error .domain
  else if y.isInf && x.isFinite then .error (if fn = .exp then .range else .domain)
  else .ok y

/-! ## Real arithmetic -/

/-- The size of the first number with the sign of the second. -/
def copySign (x y : Float) : Float :=
  if y.toBits < 0x8000000000000000 then x.abs else -x.abs

/-- A quotient as a real number.  By zero it is an infinity, its sign from the signs of both; where the dividend is
zero too or not a number, it is not a number. -/
def realQuotient (a b : Float) : Except (Fault Float) Float :=
  if b == 0 then
    if a == 0 || a.isNaN then .ok undefinedReal else .ok (copySign infinity a * copySign 1 b)
  else quotient a b

/-- A remainder as a real number: not a number by zero and where the dividend is not finite. -/
def realRemainder (a b : Float) : Except (Fault Float) Float :=
  if b == 0 || !a.isFinite then .ok undefinedReal else remainder a b

/-- A default function as a real number: not a number where it is not defined, and an infinity out of range and for
the logarithm of zero. -/
def function (fn : Fn) (x : Float) : Float :=
  match checkedFunction fn x with
  | .ok y => y
  | .error .domain => if fn = .ln ∧ x == 0 then -infinity else undefinedReal
  | .error .range => infinity

instance : Scalar Float where
  ofNum? := Num.toFloat?
  zero := 0.0
  one := 1.0
  less a b := a < b
  atMost a b := a ≤ b
  divide := realQuotient
  power a b := (realPower a b).result
  modulo := realRemainder
  function fn x := .ok (function fn x)
  reciprocal := quotient 1
  integer? := integer?
  naturalPower := naturalPower
  fractionalPower := checkedPower

end ExprCalculus.Binary64
