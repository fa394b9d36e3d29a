import ExprCalculus.Expr.Basic
import ExprCalculus.Value.Fault

/-!
# Numbers to calculate with

Evaluation and interval arithmetic are written once, over any kind of number that supplies the operations
of `Scalar`.  Machine numbers are one kind; an exact field, whose operations refuse what is not defined,
is another.
-/

namespace ExprCalculus

/-- The operations that evaluation needs of a kind of number. -/
class Scalar (α : Type) extends Add α, Sub α, Mul α, Neg α where
  /-- the value of a literal; none if it is out of range -/
  ofNum? : Num → Option α
  zero : α
  one : α
  less : α → α → Bool
  atMost : α → α → Bool
  /-- the quotient of two numbers -/
  divide : α → α → Except (Fault α) α
  /-- a power of a number -/
  power : α → α → Except (Fault α) α
  /-- the remainder of a quotient, with the sign of the divisor -/
  modulo : α → α → Except (Fault α) α
  /-- a default function -/
  function : Fn → α → Except (Fault α) α
  /-- one divided by a number; zero has none -/
  reciprocal : α → Except (Fault α) α
  /-- the integer that a number is -/
  integer? : α → Option Int
  /-- a bound of an interval to a natural power -/
  naturalPower : α → Nat → Except (Fault α) α
  /-- a bound of an interval to a power that is not an integer -/
  fractionalPower : α → α → Except (Fault α) α

namespace Scalar

variable {α : Type} [Scalar α]

/-- The first of the least numbers. -/
def least (x : α) (xs : List α) : α := xs.foldl (fun m y => if less y m then y else m) x

/-- The first of the greatest numbers. -/
def greatest (x : α) (xs : List α) : α := xs.foldl (fun m y => if less m y then y else m) x

/-- A binary operation on numbers. -/
def combine : BinOp → α → α → Except (Fault α) α
  | .plus, a, b => .ok (a + b)
  | .minus, a, b => .ok (a - b)
  | .times, a, b => .ok (a * b)
  | .divide, a, b => divide a b
  | .power, a, b => power a b
  | .modulo, a, b => modulo a b

/-- The value of a literal. -/
def ofNum (v : Num) : Except (Fault α) α :=
  match ofNum? v with
  | some x => .ok x
  | none => .error .tooLarge

end Scalar

end ExprCalculus
