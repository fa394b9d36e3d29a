import ExprCalculus.Expr.Basic

/-!
# Local simplification

One pass goes through a tree from the leaves up: each node looks at its simplified operands, drops neutral and
absorbing literals, pulls signs out of products and quotients and turns the sum of a negative into a
difference.  Marks of fixed arguments disappear on the way; the parameters of custom functions stay.

`settle` repeats passes until the tree stops changing or a number of passes is used up.
-/

namespace ExprCalculus

namespace Expr

/-! ## Rules on simplified operands -/

/-- A sum: zero is dropped and a negative term is subtracted. -/
def simplifySum (a b : Expr) : Expr :=
  if a.isValue 0 then b
  else if b.isValue 0 then a
  else
    match b with
    | .neg c => minus a c
    | .number n => if n.isNegative then minus a (.number n.negate) else plus a b
    | _ => plus a b

/-- A difference: zero is dropped and a negative term is added. -/
def simplifyDifference (a b : Expr) : Expr :=
  if b.isValue 0 then a
  else if a.isValue 0 then .neg b
  else
    match b with
    | .neg c => plus a c
    | .number n => if n.isNegative then plus a (.number n.negate) else minus a b
    | _ => minus a b

/-- A product: zero absorbs, one is dropped, signs are pulled out. -/
def simplifyProduct (a b : Expr) : Expr :=
  if a.isValue 0 || b.isValue 0 then int 0
  else if a.isValue 1 then b
  else if b.isValue 1 then a
  else
    match a, b with
    | .neg c, .neg d => times c d
    | .neg c, _ => .neg (times c b)
    | _, .neg d => .neg (times a d)
    | _, _ => times a b

/-- A quotient: a zero numerator absorbs, a unit denominator is dropped, signs are pulled out. -/
def simplifyQuotient (a b : Expr) : Expr :=
  if a.isValue 0 then int 0
  else if b.isValue 1 then a
  else
    match a, b with
    | .neg c, .neg d => divide c d
    | .neg c, _ => .neg (divide c b)
    | _, .neg d => .neg (divide a d)
    | _, _ => divide a b

/-- A power: exponents zero and one and the base one are dropped. -/
def simplifyPower (a b : Expr) : Expr :=
  if b.isValue 0 then int 1
  else if b.isValue 1 then a
  else if a.isValue 1 then int 1
  else power a b

/-- A binary operation. -/
def simplifyBinary (op : BinOp) (a b : Expr) : Expr :=
  match op with
  | .plus => simplifySum a b
  | .minus => simplifyDifference a b
  | .times => simplifyProduct a b
  | .divide => simplifyQuotient a b
  | .power => simplifyPower a b
  | .modulo => modulo a b

/-- A negation: two signs cancel and zero has none. -/
def simplifyNeg (a : Expr) : Expr :=
  match a with
  | .neg c => c
  | _ => if a.isValue 0 then a else .neg a

/-- An exponential: the values at zero and one, and the power hidden in the exponential of a multiple of a
logarithm. -/
def simplifyExp (a : Expr) : Expr :=
  if a.isValue 0 then int 1
  else if a.isValue 1 then .number .euler
  else
    match a with
    | .binary .times x (.apply .ln y) => power y.argumentValue x
    | _ => .apply .exp a

/-- A square root: of a square and at zero and one. -/
def simplifySqrt (a : Expr) : Expr :=
  match a with
  | .binary .power x n =>
    if n.isValue 2 then x else .apply .sqrt a
  | _ => if a.isValue 0 || a.isValue 1 then a else .apply .sqrt a

/-- A rounding function: what is rounded already stays. -/
def simplifyRounding (fn : Fn) (a : Expr) : Expr :=
  match a with
  | .apply .ceil _ | .apply .floor _ => a
  | _ => .apply fn a

/-- A default function. -/
def simplifyFunction (fn : Fn) (a : Expr) : Expr :=
  match fn with
  | .exp => simplifyExp a
  | .ln => if a.isValue 1 then int 0 else .apply .ln a
  | .sqrt => simplifySqrt a
  | .sin => if a.isValue 0 then a else .apply .sin a
  | .cos => if a.isValue 0 then int 1 else .apply .cos a
  | .tan => if a.isValue 0 then a else .apply .tan a
  | .ceil => simplifyRounding .ceil a
  | .floor => simplifyRounding .floor a
  | .arcsin | .arccos | .arctan | .abs | .sgn => .apply fn a

/-- A simplified function as a function: where it lost that shape it becomes the body of a custom function
with the name and the parameters of the one before. -/
def asFunction (e before : Expr) : Expr :=
  if e.isFunction then e else .custom before.functionName before.args e

/-! ## One pass -/

mutual

/-- The tree after one pass. -/
def simplify : Expr → Expr
  | .number v => .number v
  | .var x => .var x
  | .fixed e => simplify e
  | .vector es => .vector (simplifyAll es)
  | .interval a b => .interval (simplify a) (simplify b)
  | .binary op a b => simplifyBinary op (simplify a) (simplify b)
  | .neg a => simplifyNeg (simplify a)
  | .apply fn a => simplifyFunction fn (simplify a)
  | .log base a => .log (simplify base) (simplify a)
  | .root n a => .root n (simplify a)
  | .custom name params body => .custom name params (simplify body)
  | .compose f g => .compose (asFunction (simplify f) f) (asFunction (simplify g) g)
  | .call name => .call name

/-- Several trees after one pass. -/
def simplifyAll : List Expr → List Expr
  | [] => []
  | e :: es => simplify e :: simplifyAll es

end

/-! ## Repeated passes -/

/-- A tree after repeated passes. -/
structure Settled where
  tree : Expr
  /-- the passes done -/
  passes : Nat
  /-- whether the last pass changed nothing -/
  stable : Bool

/-- Does at most the given number of further passes after those done already. -/
def settleFrom (done : Nat) : Nat → Expr → Settled
  | 0, e => ⟨e, done, false⟩
  | left + 1, e =>
    if (simplify e).unchanged e then ⟨simplify e, done + 1, true⟩
    else settleFrom (done + 1) left (simplify e)

/-- Repeats passes until the tree stops changing, at most `limit` times. -/
def settle (limit : Nat) (e : Expr) : Settled := settleFrom 0 limit e

/-- The greatest number of passes unless another is set. -/
def defaultPassLimit : Nat := 32

end Expr

end ExprCalculus
