import ExprCalculus.Calculator.Datum

/-!
# Steps of the calculator

Each command takes data and yields one datum.  Operations on vectors and intervals are those of values; a
number that joins them is first taken as a machine number.
-/

namespace ExprCalculus.Calculator

/-- A function that an interval may be mapped by. -/
inductive Mapping where
  | negate
  | double
  | function (fn : Fn)
  deriving DecidableEq

/-- What a step does. -/
inductive Command where
  | vector
  | interval
  /-- a component of a vector, by position -/
  | component (name : String) (position : Nat)
  | dimension
  | lower
  | upper
  | dot
  | length
  | contains
  | containsZero
  | map (f : Mapping)
  | combine (op : BinOp)
  | negate
  | equal
  | text
  | description

/-- What a step yields. -/
abbrev Answer := Except CalcError Datum

/-- A result of arithmetic on values. -/
def ofValues (r : Except (Fault Float) (Value Float)) : Answer :=
  (r.map Datum.ofValue).mapError .fault

/-- A result of arithmetic on literals. -/
def ofLiteral (r : Except (Fault Float) Num) : Answer := (r.map Datum.num).mapError .fault

/-! ## Operations -/

/-- The fault of an operation on two data. -/
def unsupported (op : BinOp) (a b : Datum) : Answer :=
  .error (.operands (Value.operationName op) a.kindName b.kindName)

/-- The quotient of two numbers. -/
def quotient (a b : Num) : Answer :=
  if b.isValue 0 then
    match a, b with
    | .int _, .int _ => .error .divisionByZero
    | _, _ => .error (.fault .divisionByZero)
  else ofLiteral ((a.realQuotient b).map .float)

/-- A power of two numbers. -/
def powerOf (a b : Num) : Answer :=
  match a, b with
  | .int m, .int (.ofNat n) => .ok (.num (.int (integerPower m n)))
  | _, _ =>
    match Num.onFloats Binary64.checkedPower a b with
    | .ok r => ofLiteral (r.map .float)
    | .error e => .error (.fault e)

/-- An operation on two numbers. -/
def combineNumbers (op : BinOp) (a b : Num) : Answer :=
  match op with
  | .plus => ofLiteral (a.arithmetic (· + ·) (· + ·) b)
  | .minus => ofLiteral (a.arithmetic (· - ·) (· - ·) b)
  | .times => ofLiteral (a.arithmetic (· * ·) (· * ·) b)
  | .divide => quotient a b
  | .power => powerOf a b
  | .modulo => ofLiteral (a.realModulo b)

/-- Whether a number may join a vector or an interval in an operation, on its left or on its right. -/
def numberJoins (op : BinOp) (v : Value Float) (onLeft : Bool) : Bool :=
  match v, op with
  | .vector _, .times | .interval _, .plus | .interval _, .minus | .interval _, .times
  | .interval _, .divide => true
  | .vector _, .divide => !onLeft
  | _, _ => false

/-- An interval to the power of a datum; an integer power keeps its parity at any size. -/
def intervalPower (i : Interval Float) (d : Datum) : Answer :=
  match d.asFloat with
  | .error e => .error e
  | .ok x =>
    match d.num? with
    | some (.int n) => ofValues (Value.ofInterval (i.intPow n))
    | _ => ofValues (Value.ofInterval (i.pow x))

/-- A binary operation on two data. -/
def combine (op : BinOp) (a b : Datum) : Answer :=
  match op, a with
  | .power, .interval i => intervalPower i b
  | _, _ =>
    match a.num?, a.value?, b.num?, b.value? with
    | some x, _, some y, _ => combineNumbers op x y
    | _, some v, some y, _ =>
      if numberJoins op v false then
        match y.asFloat with
        | .ok z => ofValues (v.combine op (.real z))
        | .error f => .error (.fault f)
      else unsupported op a b
    | some x, _, _, some v =>
      if numberJoins op v true then
        match x.asFloat with
        | .ok z => ofValues ((Value.real z).combine op v)
        | .error f => .error (.fault f)
      else unsupported op a b
    | _, some v, _, some w => ofValues (v.combine op w)
    | _, _, _, _ =>
      match op, a, b with
      | .plus, .list as, .list bs => .ok (.list (as ++ bs))
      | .plus, .list _, _ => .error (.joined b.kindName)
      | .times, .list _, _ => .error (.repeated b.kindName)
      | .times, _, .list _ => .error (.repeated a.kindName)
      | _, _, _ => unsupported op a b

/-- The negative of a datum. -/
def negated (d : Datum) : Answer :=
  match d.num?, d.value? with
  | some v, _ => .ok (.num v.negate)
  | _, some v => ofValues v.negate
  | _, _ => .error (.operand d.kindName)

/-! ## Making vectors and intervals -/

/-- The machine numbers that data count as. -/
def floats : List Datum → Except CalcError (List Float)
  | [] => .ok []
  | d :: ds =>
    match d.asFloat with
    | .error e => .error e
    | .ok x =>
      match floats ds with
      | .error e => .error e
      | .ok xs => .ok (x :: xs)

/-- The vector of components, which may be given as the items of one datum. -/
def makeVector (args : List Datum) : Answer :=
  let components : Except CalcError (List Datum) :=
    match args with
    | [d] =>
      match d.num?, d.items? with
      | some _, _ => .ok [d]
      | none, some items => .ok items
      | none, none => .error (.notIterable d.kindName)
    | _ => .ok args
  match components with
  | .error e => .error e
  | .ok [] => .error (.fault .emptyVector)
  | .ok ds => (floats ds).map .vector

/-- The interval between two bounds, the second of which is the first unless given. -/
def makeInterval (args : List Datum) : Answer :=
  let between (lo hi : Datum) : Answer :=
    match lo.asFloat with
    | .error e => .error e
    | .ok x =>
      match hi.asFloat with
      | .error e => .error e
      | .ok y => if y < x then .error (.reversed lo.display hi.display) else .ok (.interval ⟨x, y⟩)
  match args with
  | [] => .error .noBounds
  | [lo] | [lo, .nothing] => between lo lo
  | [lo, hi] => between lo hi
  | _ => .error (.tooManyBounds args.length)

/-! ## Commands -/

/-- The sum of the products of numbers with items, from zero on. -/
def sumOfProducts (xs : List Float) (items : List Datum) : Answer :=
  (xs.zip items).foldl
    (fun sum (x, d) =>
      match sum with
      | .error e => .error e
      | .ok s =>
        match combine .times (.num (.float x)) d with
        | .error e => .error e
        | .ok p => combine .plus s p)
    (.ok (.num (.int 0)))

/-- The scalar product of a vector with a datum that has items; the items beyond the shorter of the two do
not count, unless the datum is a vector. -/
def dotProduct (xs : List Float) (d : Datum) : Answer :=
  match d, d.items? with
  | .vector ys, _ =>
    if xs.length = ys.length then sumOfProducts xs (ys.map fun y => .num (.float y))
    else .error (.fault (.dimensions xs.length ys.length))
  | _, some items => sumOfProducts xs items
  | _, none => .error (.notIterable d.kindName)

/-- The length of a vector. -/
def vectorLength (xs : List Float) : Answer :=
  match dotProduct xs (.vector xs) with
  | .error e => .error e
  | .ok s => s.asFloat.map fun x => .num (.float x.sqrt)

/-- Whether a datum lies in an interval. -/
def isWithin (i : Interval Float) (d : Datum) : Answer :=
  match d.num? with
  | some v => .ok (.truth (Num.atMost (.float i.lo) v && Num.atMost v (.float i.hi)))
  | none => .error (.comparison "float" d.kindName)

/-- The function that a mapping stands for. -/
def Mapping.apply : Mapping → Float → Float
  | .negate, x => -x
  | .double, x => 2 * x
  | .function fn, x => Binary64.function fn x

/-- What is asked of a datum that is not of the right kind. -/
def lacking (d : Datum) (name : String) : Answer := .error (.noAttribute d.kindName name)

/-- Carries out a command; none if the number of arguments does not fit it. -/
def Command.run : Command → List Datum → Option Answer
  | .vector, args => some (makeVector args)
  | .interval, args => some (makeInterval args)
  | .component name n, [d] => some <|
    match d with
    | .vector xs =>
      match xs[n]? with
      | some x => .ok (.num (.float x))
      | none => .error .position
    | d => lacking d name
  | .dimension, [d] => some <|
    match d with
    | .vector xs => .ok (.num (.int xs.length))
    | d => lacking d "dim"
  | .lower, [d] => some <|
    match d with
    | .interval i => .ok (.num (.float i.lo))
    | d => lacking d "min"
  | .upper, [d] => some <|
    match d with
    | .interval i => .ok (.num (.float i.hi))
    | d => lacking d "max"
  | .dot, [d, other] => some <|
    match d with
    | .vector xs => dotProduct xs other
    | d => lacking d "dot"
  | .length, [d] => some <|
    match d with
    | .vector xs => vectorLength xs
    | .interval i => .ok (.num (.float (i.hi - i.lo)))
    | d => lacking d "length"
  | .contains, [d, x] => some <|
    match d with
    | .interval i => isWithin i x
    | d => lacking d "contains"
  | .containsZero, [d] => some <|
    match d with
    | .interval i => isWithin i (.num (.int 0))
    | d => lacking d "contains_zero"
  | .map f, [d] => some <|
    match d with
    | .interval i => ofValues (Value.ofInterval (i.map fun x => .ok (f.apply x)))
    | d => lacking d "map"
  | .combine op, [a, b] => some (Calculator.combine op a b)
  | .negate, [d] => some (negated d)
  | .equal, [a, b] => some (.ok (.truth (a.same b)))
  | .text, [d] => some (.ok (.text d.display))
  | .description, [d] => some (.ok (.text d.described))
  | _, _ => none

end ExprCalculus.Calculator
