/-!
# What can go wrong in arithmetic

An arithmetic operation on numbers, vectors or intervals may have no result.  The reasons are kept apart
by cause; their wording is in `Fault.message`, which is given how the numbers are written.
-/

namespace ExprCalculus

/-- Why an arithmetic operation has no result. -/
inductive Fault (α : Type) where
  | emptyVector
  | dimensions (m n : Nat)
  /-- the bounds of an interval in the wrong order -/
  | reversed (lo hi : α)
  /-- a quotient by an interval that contains zero -/
  | zeroDivisor (lo hi : α)
  /-- a power that is not an integer, of an interval that reaches below zero -/
  | fractionalPower (exponent lo hi : α)
  /-- a negative power of an interval that contains zero -/
  | negativePower (exponent lo hi : α)
  | divisionByZero
  /-- a negative power of zero -/
  | zeroToNegative
  /-- an integer beyond the range of machine numbers -/
  | tooLarge
  /-- a quotient of integers beyond the range of machine numbers -/
  | quotientTooLarge
  /-- a power beyond the range of machine numbers -/
  | outOfRange
  /-- a power that is a complex number -/
  | complexPower
  /-- a power that is a complex number beyond the range of machine numbers -/
  | complexOutOfRange
  /-- an operation on operands it is not defined for, which are named by their kinds -/
  | operands (operation left right : String)
  /-- a value of another kind where a number is needed -/
  | notNumber (kind : String)

namespace Fault

/-- The classes of faults. -/
inductive Class where
  | value
  | zeroDivision
  | overflow
  | kind
  deriving DecidableEq, Repr

/-- The class a fault belongs to. -/
def faultClass {α : Type} : Fault α → Class
  | .emptyVector | .dimensions .. | .reversed .. | .fractionalPower .. => .value
  | .zeroDivisor .. | .negativePower .. | .divisionByZero | .zeroToNegative => .zeroDivision
  | .tooLarge | .quotientTooLarge | .outOfRange | .complexOutOfRange => .overflow
  | .complexPower | .operands .. | .notNumber _ => .kind

/-- The name of a class in messages. -/
def Class.label : Class → String
  | .value => "ValueError"
  | .zeroDivision => "ZeroDivisionError"
  | .overflow => "OverflowError"
  | .kind => "TypeError"

/-- The name of a fault's class. -/
def label {α : Type} (f : Fault α) : String := f.faultClass.label

/-- An interval as it is written in messages. -/
def bounds {α : Type} (text : α → String) (lo hi : α) : String :=
  "[" ++ text lo ++ ", " ++ text hi ++ "]"

/-- The message of a fault, numbers being written by `text`. -/
def message {α : Type} (text : α → String) : Fault α → String
  | .emptyVector => "vector must have at least one component"
  | .dimensions m n => "vector dimension mismatch " ++ Nat.repr m ++ " != " ++ Nat.repr n
  | .reversed lo hi => "invalid interval " ++ bounds text lo hi ++ ", min > max"
  | .zeroDivisor lo hi => "division by interval " ++ bounds text lo hi ++ " containing zero"
  | .fractionalPower x lo hi =>
    "non-integer power " ++ text x ++ " of interval " ++ bounds text lo hi ++ " reaching below zero"
  | .negativePower x lo hi =>
    "negative power " ++ text x ++ " of interval " ++ bounds text lo hi ++ " containing zero"
  | .divisionByZero => "float division by zero"
  | .zeroToNegative => "0.0 cannot be raised to a negative power"
  | .tooLarge => "int too large to convert to float"
  | .quotientTooLarge => "integer division result too large for a float"
  | .outOfRange => "(34, 'Numerical result out of range')"
  | .complexPower => "float() argument must be a string or a real number, not 'complex'"
  | .complexOutOfRange => "complex exponentiation"
  | .operands operation left right =>
    "unsupported operand type(s) for " ++ operation ++ ": '" ++ left ++ "' and '" ++ right ++ "'"
  | .notNumber kind => "float() argument must be a string or a real number, not '" ++ kind ++ "'"

end Fault

end ExprCalculus
