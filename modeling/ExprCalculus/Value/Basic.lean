import ExprCalculus.Number.Decimal
import ExprCalculus.Value.Interval

/-!
# Values

An expression evaluates to a number, a vector or an interval.  `Value.combine` says which operation is
defined on which pair of kinds: a number joins an interval as the interval that holds it alone, scales a
vector, and divides one.
-/

namespace ExprCalculus

/-- What an expression evaluates to. -/
inductive Value (α : Type) where
  | real (x : α)
  | vector (xs : List α)
  | interval (i : Interval α)
  deriving DecidableEq, Repr

namespace Value

variable {α : Type} [Scalar α]

/-- The name of a value's kind in messages. -/
def kindName {β : Type} : Value β → String
  | .real _ => "float"
  | .vector _ => "Vec"
  | .interval _ => "Interval"

/-- The number a value is. -/
def number : Value α → Except (Fault α) α
  | .real x => .ok x
  | v => .error (.notNumber v.kindName)

/-- Makes a value of an interval. -/
def ofInterval (r : Except (Fault α) (Interval α)) : Except (Fault α) (Value α) := r.map .interval

/-- An operation as it is named in messages. -/
def operationName : BinOp → String
  | .power => "** or pow()"
  | op => op.symbol

/-- The fault of an operation on operands it is not defined for. -/
def unsupported (op : BinOp) (a b : Value α) : Except (Fault α) (Value α) :=
  .error (.operands (operationName op) a.kindName b.kindName)

/-- An operation on intervals, the power apart. -/
def combineIntervals (op : BinOp) (i j : Interval α) : Except (Fault α) (Value α) :=
  match op with
  | .plus => ofInterval (i.add j)
  | .minus => ofInterval (i.sub j)
  | .times => ofInterval (i.mul j)
  | .divide => ofInterval (i.div j)
  | .power | .modulo => unsupported op (.interval i) (.interval j)

/-- An operation on the components of two vectors of one dimension. -/
def componentwise (f : α → α → α) (xs ys : List α) : Except (Fault α) (Value α) :=
  if xs.length = ys.length then .ok (.vector (List.zipWith f xs ys))
  else .error (.dimensions xs.length ys.length)

/-- A vector divided by a number. -/
def divideComponents (y : α) : List α → Except (Fault α) (List α)
  | [] => .ok []
  | x :: xs =>
    match Scalar.divide x y with
    | .error e => .error e
    | .ok q =>
      match divideComponents y xs with
      | .error e => .error e
      | .ok qs => .ok (q :: qs)

/-- A vector scaled by a number. -/
def scale (xs : List α) (y : α) : Value α := .vector (xs.map (· * y))

/-- A binary operation on values of any kinds. -/
def combine (op : BinOp) : Value α → Value α → Except (Fault α) (Value α)
  | .real x, .real y => (Scalar.combine op x y).map .real
  | .vector xs, .vector ys =>
    match op with
    | .plus => componentwise (· + ·) xs ys
    | .minus => componentwise (· - ·) xs ys
    | _ => unsupported op (.vector xs) (.vector ys)
  | .vector xs, .real y =>
    match op with
    | .times => .ok (scale xs y)
    | .divide => (divideComponents y xs).map .vector
    | _ => unsupported op (.vector xs) (.real y)
  | .real x, .vector ys =>
    match op with
    | .times => .ok (scale ys x)
    | _ => unsupported op (.real x) (.vector ys)
  | .interval i, .real y =>
    match op with
    | .power => ofInterval (i.pow y)
    | .modulo => unsupported op (.interval i) (.real y)
    | _ => combineIntervals op i (.point y)
  | .real x, .interval j =>
    match op with
    | .power | .modulo => unsupported op (.real x) (.interval j)
    | _ => combineIntervals op (.point x) j
  | .interval i, .interval j =>
    if op = .power then .error (.notNumber (kindName (.interval j))) else combineIntervals op i j
  | .interval i, .vector ys =>
    if op = .power then .error (.notNumber (kindName (.vector ys)))
    else unsupported op (.interval i) (.vector ys)
  | .vector xs, .interval j => unsupported op (.vector xs) (.interval j)

/-- The negative of a value. -/
def negate : Value α → Except (Fault α) (Value α)
  | .real x => .ok (.real (-x))
  | .vector xs => .ok (.vector (xs.map (-·)))
  | .interval i => ofInterval i.neg

/-- The interval between two values, which must be numbers. -/
def between (a b : Value α) : Except (Fault α) (Value α) :=
  match a.number with
  | .error e => .error e
  | .ok lo =>
    match b.number with
    | .error e => .error e
    | .ok hi => ofInterval (Interval.make lo hi)

/-- The numbers that values are. -/
def numbers : List (Value α) → Except (Fault α) (List α)
  | [] => .ok []
  | v :: vs =>
    match v.number with
    | .error e => .error e
    | .ok x =>
      match numbers vs with
      | .error e => .error e
      | .ok xs => .ok (x :: xs)

/-- The vector of values, of which there must be one and all must be numbers. -/
def ofComponents (vs : List (Value α)) : Except (Fault α) (Value α) :=
  if vs.isEmpty then .error .emptyVector else (numbers vs).map .vector

/-! ## How values of machine numbers are written -/

open Decimal

/-- Numbers between brackets. -/
def bracketed (xs : List Float) : String := "[" ++ ", ".intercalate (xs.map floatText) ++ "]"

/-- Numbers after a name, between parentheses. -/
def named (name : String) (xs : List Float) : String :=
  name ++ "(" ++ ", ".intercalate (xs.map floatText) ++ ")"

/-- The text of a value. -/
def text : Value Float → String
  | .real x => floatText x
  | .vector xs => bracketed xs
  | .interval i => bracketed [i.lo, i.hi]

/-- The text of a value that names its kind. -/
def described : Value Float → String
  | .real x => floatText x
  | .vector xs => named "Vec" xs
  | .interval i => named "Interval" [i.lo, i.hi]

end Value

end ExprCalculus
