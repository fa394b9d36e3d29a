import ExprCalculus.Number.Binary64

/-!
# Number literals

A literal keeps the kind it was written with: an integer of any size or a machine number.  Literals
are compared by exact value, so `2` and `2.0` agree, the two zeros agree, and an integer above
`2 ^ 53` agrees only with the machine number that is exactly that integer.
-/

namespace ExprCalculus

/-- A natural power of an integer. -/
def integerPower (m : Int) (n : Nat) : Int :=
  if m < 0 ∧ n % 2 = 1 then -(Nat.pow m.natAbs n : Int) else Nat.pow m.natAbs n

/-- A number literal. -/
inductive Num where
  | int (n : Int)
  | float (x : Float)
  deriving DecidableEq

namespace Num

/-- The exact value; none for the infinities and for what is not a number. -/
def exactValue? : Num → Option Dyadic
  | .int n => some (.ofInt n)
  | .float x => Dyadic.ofFloat? x

/-- Whether two literals have the same value.  What is not a number agrees with nothing. -/
def sameValue (a b : Num) : Bool :=
  match a.exactValue?, b.exactValue? with
  | some x, some y => x.sameValue y
  | none, none =>
    match a, b with
    | .float x, .float y => x == y
    | _, _ => false
  | _, _ => false

/-- Whether the literal has this integer value. -/
def isValue (a : Num) (n : Int) : Bool :=
  match a.exactValue? with
  | some x => x.sameValue (.ofInt n)
  | none => false

/-- Whether two literals are the same literal or have the same value. -/
def alike (a b : Num) : Bool := a = b || a.sameValue b

/-- Whether the literal is below zero. -/
def isNegative : Num → Bool
  | .int n => n < 0
  | .float x => x < 0

/-- The literal with the other sign. -/
def negate : Num → Num
  | .int n => .int (-n)
  | .float x => .float (-x)

/-- One less. -/
def pred : Num → Num
  | .int n => .int (n - 1)
  | .float x => .float (x - 1)

/-- The machine number nearest to the literal; none for an integer out of range. -/
def toFloat? : Num → Option Float
  | .int n => intToFloat? n
  | .float x => some x

/-- Euler's number, to machine precision. -/
def euler : Num := .float 2.718281828459045

/-- The circle constant, to machine precision. -/
def pi : Num := .float 3.141592653589793

end Num

end ExprCalculus
