import ExprCalculus.Number.Numeral
import ExprCalculus.Text.Quoted
import ExprCalculus.Value.Basic
import ExprCalculus.Value.Literal

/-!
# Data of the calculator

The calculator works on numbers that keep their kind, vectors, intervals and lists, and on what its own
steps yield besides: truth values, texts, and nothing where a step failed.
-/

namespace ExprCalculus.Calculator

/-- What a step takes and yields. -/
inductive Datum where
  | num (v : Num)
  | vector (xs : List Float)
  | interval (i : Interval Float)
  | list (items : List Datum)
  | truth (b : Bool)
  | text (s : String)
  | nothing

instance : Inhabited Datum := ⟨.nothing⟩

/-- Why a step fails. -/
inductive CalcError where
  | fault (f : Fault Float)
  /-- the bounds of an interval in the wrong order, as they were given -/
  | reversed (lo hi : String)
  | operands (operation left right : String)
  | operand (kind : String)
  | comparison (left right : String)
  | notNumber (kind : String)
  | notNumeral (text : String)
  | noAttribute (kind name : String)
  | notIterable (kind : String)
  | repeated (kind : String)
  | joined (kind : String)
  | position
  | divisionByZero
  | noBounds
  | tooManyBounds (given : Nat)

namespace Datum

/-- The name of a datum's kind. -/
def kindName : Datum → String
  | .num (.int _) => "int"
  | .num (.float _) => "float"
  | .vector _ => "Vec"
  | .interval _ => "Interval"
  | .list _ => "list"
  | .truth _ => "bool"
  | .text _ => "str"
  | .nothing => "NoneType"

/-- A value as a datum. -/
def ofValue : Value Float → Datum
  | .real x => .num (.float x)
  | .vector xs => .vector xs
  | .interval i => .interval i

/-- The number a datum counts as: a truth value counts as zero or one. -/
def num? : Datum → Option Num
  | .num v => some v
  | .truth b => some (.int (if b then 1 else 0))
  | _ => none

/-- The vector or interval a datum is. -/
def value? : Datum → Option (Value Float)
  | .vector xs => some (.vector xs)
  | .interval i => some (.interval i)
  | _ => none

/-- The items of a datum that has some. -/
def items? : Datum → Option (List Datum)
  | .vector xs => some (xs.map fun x => .num (.float x))
  | .interval i => some [.num (.float i.lo), .num (.float i.hi)]
  | .list items => some items
  | .text s => some (s.toList.map fun c => .text (String.singleton c))
  | _ => none

mutual

/-- The text of a datum as it appears within a list. -/
def described : Datum → String
  | .num v => v.text
  | .vector xs => (Value.vector xs).described
  | .interval i => (Value.interval i).described
  | .list items => "[" ++ ", ".intercalate (describedAll items) ++ "]"
  | .truth b => if b then "True" else "False"
  | .text s => Text.quoted s
  | .nothing => "None"

/-- The texts of several data. -/
def describedAll : List Datum → List String
  | [] => []
  | d :: ds => described d :: describedAll ds

end

/-- The text of a datum. -/
def display : Datum → String
  | .vector xs => (Value.vector xs).text
  | .interval i => (Value.interval i).text
  | .text s => s
  | d => d.described

mutual

/-- Whether two data are equal.  Vectors and intervals are compared by their numbers alone. -/
def same : Datum → Datum → Bool
  | .num a, .num b => a.sameValue b
  | .num a, .truth b | .truth b, .num a => a.isValue (if b then 1 else 0)
  | .truth a, .truth b => a == b
  | .vector xs, .vector ys => xs == ys
  | .interval i, .interval j => i.lo == j.lo && i.hi == j.hi
  | .vector xs, .interval i | .interval i, .vector xs => xs == [i.lo, i.hi]
  | .list as, .list bs => sameAll as bs
  | .text a, .text b => a == b
  | .nothing, .nothing => true
  | _, _ => false

/-- Whether two lists are equal. -/
def sameAll : List Datum → List Datum → Bool
  | [], [] => true
  | a :: as, b :: bs => same a b && sameAll as bs
  | _, _ => false

end

/-- The machine number a datum counts as. -/
def asFloat (d : Datum) : Except CalcError Float :=
  match d with
  | .text s =>
    match Numeral.float? s with
    | some x => .ok x
    | none => .error (.notNumeral s)
  | d =>
    match d.num? with
    | some v => v.asFloat.mapError .fault
    | none => .error (.notNumber d.kindName)

end Datum

namespace CalcError

/-- The message of an error. -/
def message : CalcError → String
  | .fault f => f.message Decimal.floatText
  | .reversed lo hi => "invalid interval [" ++ lo ++ ", " ++ hi ++ "], min > max"
  | .operands operation left right => (Fault.operands operation left right : Fault Float).message Decimal.floatText
  | .operand kind => "bad operand type for unary -: " ++ Text.quoted kind
  | .comparison left right =>
    "'<=' not supported between instances of " ++ Text.quoted left ++ " and " ++ Text.quoted right
  | .notNumber kind => (Fault.notNumber kind : Fault Float).message Decimal.floatText
  | .notNumeral s => "could not convert string to float: " ++ Text.quoted s
  | .noAttribute kind name => Text.quoted kind ++ " object has no attribute " ++ Text.quoted name
  | .notIterable kind => Text.quoted kind ++ " object is not iterable"
  | .repeated kind => "can't multiply sequence by non-int of type " ++ Text.quoted kind
  | .joined kind => "can only concatenate list (not \"" ++ kind ++ "\") to list"
  | .position => "tuple index out of range"
  | .divisionByZero => "division by zero"
  | .noBounds => "Interval.__new__() missing 1 required positional argument: 'min'"
  | .tooManyBounds n =>
    "Interval.__new__() takes from 2 to 3 positional arguments but " ++ Nat.repr (n + 1) ++ " were given"

end CalcError

end ExprCalculus.Calculator
