import ExprCalculus.Value.Scalar

/-!
# Interval arithmetic

A closed interval is given by its two bounds.  Each operation yields the bounds of all results of the
operation on members of its operands; a divisor must not contain zero.  The bounds are checked for
their order each time, which matters where they come from outside.
-/

namespace ExprCalculus

/-- A closed interval. -/
structure Interval (α : Type) where
  lo : α
  hi : α
  deriving DecidableEq, Repr

namespace Interval

variable {α : Type} [Scalar α]

open Scalar

/-- The interval between two bounds; none if they are in the wrong order. -/
def make (lo hi : α) : Except (Fault α) (Interval α) :=
  if less hi lo then .error (.reversed lo hi) else .ok ⟨lo, hi⟩

/-- The interval that holds one number. -/
def point (x : α) : Interval α := ⟨x, x⟩

/-- Whether a number lies in the interval. -/
def contains (i : Interval α) (x : α) : Bool := atMost i.lo x && atMost x i.hi

/-- Sum. -/
def add (i j : Interval α) : Except (Fault α) (Interval α) := make (i.lo + j.lo) (i.hi + j.hi)

/-- Difference. -/
def sub (i j : Interval α) : Except (Fault α) (Interval α) := make (i.lo - j.hi) (i.hi - j.lo)

/-- Product: the least and the greatest product of two bounds. -/
def mul (i j : Interval α) : Except (Fault α) (Interval α) :=
  let first := i.lo * j.lo
  let others := [i.lo * j.hi, i.hi * j.lo, i.hi * j.hi]
  make (least first others) (greatest first others)

/-- Negative. -/
def neg (i : Interval α) : Except (Fault α) (Interval α) := make (-i.hi) (-i.lo)

/-- The interval of the reciprocals. -/
def reciprocal (i : Interval α) : Except (Fault α) (Interval α) :=
  match Scalar.reciprocal i.hi with
  | .error e => .error e
  | .ok lo =>
    match Scalar.reciprocal i.lo with
    | .error e => .error e
    | .ok hi => make lo hi

/-- Quotient. -/
def div (i j : Interval α) : Except (Fault α) (Interval α) :=
  if j.contains zero then .error (.zeroDivisor j.lo j.hi)
  else
    match j.reciprocal with
    | .error e => .error e
    | .ok r => i.mul r

/-- The interval between the images of two numbers under a function that may fail, the image of the first
being computed first. -/
def image (f : α → Except (Fault α) α) (x y : α) : Except (Fault α) (Interval α) :=
  match f x with
  | .error e => .error e
  | .ok lo =>
    match f y with
    | .error e => .error e
    | .ok hi => make lo hi

/-- The interval of the values of an increasing function. -/
def map (f : α → Except (Fault α) α) (i : Interval α) : Except (Fault α) (Interval α) :=
  image f i.lo i.hi

/-- Natural power.  An odd power increases; an even one does so on what is not negative, decreases on what
is not positive, and otherwise has its least value at zero. -/
def naturalPow (i : Interval α) (n : Nat) : Except (Fault α) (Interval α) :=
  let pow (x : α) := naturalPower x n
  if n % 2 = 1 || atMost zero i.lo then image pow i.lo i.hi
  else if atMost i.hi zero then image pow i.hi i.lo
  else
    match pow i.lo with
    | .error e => .error e
    | .ok x =>
      match pow i.hi with
      | .error e => .error e
      | .ok y => make zero (greatest x [y])

/-- Integer power.  A negative power is the reciprocal of the positive one. -/
def intPow (i : Interval α) : Int → Except (Fault α) (Interval α)
  | .ofNat n => i.naturalPow n
  | .negSucc n =>
    match i.naturalPow (n + 1) with
    | .error e => .error e
    | .ok p => (point one).div p

/-- Power that is not an integer, of an interval that does not reach below zero. -/
def fractionalPow (i : Interval α) (x : α) : Except (Fault α) (Interval α) :=
  let pow (y : α) := fractionalPower y x
  if less i.lo zero then .error (.fractionalPower x i.lo i.hi)
  else if atMost zero x then image pow i.lo i.hi
  else if atMost i.lo zero && atMost zero i.lo then .error (.negativePower x i.lo i.hi)
  else image pow i.hi i.lo

/-- Power. -/
def pow (i : Interval α) (x : α) : Except (Fault α) (Interval α) :=
  match integer? x with
  | some n => i.intPow n
  | none => i.fractionalPow x

end Interval

end ExprCalculus
