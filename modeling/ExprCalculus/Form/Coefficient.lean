import ExprCalculus.Form.Basic
import ExprCalculus.Number.Rounding

/-!
# Coefficients

The numbers that forms are combined with: ratios, machine numbers, the two infinities and what is not a
number.  A ratio that meets a machine number is rounded first, and a result of zero is the integer zero.
-/

namespace ExprCalculus

/-- A number of algebraic forms. -/
inductive Coefficient where
  | ratio (q : Ratio)
  | float (x : Float)
  | infinity
  | negativeInfinity
  | undefined

namespace Coefficient

/-- An integer. -/
abbrev int (n : Int) : Coefficient := .ratio (.ofInt n)

/-- The number as a form. -/
def form : Coefficient → Form
  | .ratio q => .ratio q
  | .float x => .float x
  | .infinity => .constant .infinity
  | .negativeInfinity => .constant .negativeInfinity
  | .undefined => .undefined

/-- The number that a calculation with machine numbers comes to. -/
def ofResult (x : Float) : Coefficient :=
  if x.isNaN then .undefined
  else if x.isInf then (if x < 0 then .negativeInfinity else .infinity)
  else if x == 0 then .int 0
  else .float x

/-- The machine number nearest to a ratio. -/
def rounded (q : Ratio) : Float :=
  let x := Dyadic.nearest q.num.natAbs q.den
  if q.isNegative then -x else x

/-- The exact value of a machine number. -/
def exactFloat? (x : Float) : Option Ratio :=
  (Dyadic.ofFloat? x).map fun d =>
    if 0 ≤ d.exponent then .ofInt (d.signed * twoPow d.exponent.toNat)
    else .make d.signed (twoPow (-d.exponent).toNat)

/-- The exact value of a number. -/
def exactValue? : Coefficient → Option Ratio
  | .ratio q => some q
  | .float x => exactFloat? x
  | _ => none

/-! ## Signs -/

/-- Whether the number is zero, exactly or by rounding. -/
def isZero : Coefficient → Bool
  | .ratio q => q.num = 0
  | .float x => x == 0
  | _ => false

/-- Whether the number is the integer one. -/
def isOne : Coefficient → Bool
  | .ratio q => q = .ofInt 1
  | _ => false

/-- Whether the number is the integer minus one. -/
def isMinusOne : Coefficient → Bool
  | .ratio q => q = .ofInt (-1)
  | _ => false

/-- Whether the number is below zero. -/
def isNegative : Coefficient → Bool
  | .ratio q => q.isNegative
  | .float x => x < 0
  | .negativeInfinity => true
  | _ => false

/-- Whether the number is above zero. -/
def isPositive : Coefficient → Bool
  | .ratio q => 0 < q.num
  | .float x => 0 < x
  | .infinity => true
  | _ => false

/-- Whether the number is a ratio. -/
def isRatio : Coefficient → Bool
  | .ratio _ => true
  | _ => false

/-- Whether the number is neither an infinity nor undefined. -/
def isFinite : Coefficient → Bool
  | .ratio _ | .float _ => true
  | _ => false

/-- The order of two numbers by value, the undefined one equal to all. -/
def order : Coefficient → Coefficient → Ordering
  | .undefined, _ | _, .undefined => .eq
  | .infinity, .infinity | .negativeInfinity, .negativeInfinity => .eq
  | .infinity, _ | _, .negativeInfinity => .gt
  | .negativeInfinity, _ | _, .infinity => .lt
  | a, b =>
    match a.exactValue?, b.exactValue? with
    | some p, some q => if p.less q then .lt else if q.less p then .gt else .eq
    | _, _ => .eq

/-! ## Arithmetic -/

/-- The number with the other sign. -/
def neg : Coefficient → Coefficient
  | .ratio q => .ratio q.neg
  | .float x => .float (if x == 0 then x else -x)
  | .infinity => .negativeInfinity
  | .negativeInfinity => .infinity
  | .undefined => .undefined

/-- The size of the number. -/
def size (a : Coefficient) : Coefficient := if a.isNegative then a.neg else a

/-- Sum. -/
def add : Coefficient → Coefficient → Coefficient
  | .ratio p, .ratio q => .ratio (p.add q)
  | .ratio p, .float y => ofResult (rounded p + y)
  | .float x, .ratio q => ofResult (x + rounded q)
  | .float x, .float y => ofResult (x + y)
  | .undefined, _ | _, .undefined => .undefined
  | .infinity, .negativeInfinity | .negativeInfinity, .infinity => .undefined
  | .infinity, _ | _, .infinity => .infinity
  | .negativeInfinity, _ | _, .negativeInfinity => .negativeInfinity

/-- Product. -/
def mul (a b : Coefficient) : Coefficient :=
  match a, b with
  | .ratio p, .ratio q => .ratio (p.mul q)
  | .ratio p, .float y => ofResult (rounded p * y)
  | .float x, .ratio q => ofResult (x * rounded q)
  | .float x, .float y => ofResult (x * y)
  | .undefined, _ | _, .undefined => .undefined
  | a, b =>
    if a.isZero || b.isZero then .undefined
    else if a.isNegative = b.isNegative then .infinity
    else .negativeInfinity

/-- The quotient of two numbers where it is a number. -/
def div? (a b : Coefficient) : Option Coefficient :=
  match a, b with
  | .ratio p, .ratio q =>
    if q.num = 0 then (if p.num = 0 then some .undefined else none) else some (.ratio (p.mul q.inverse))
  | .ratio p, .float y => if y == 0 then none else some (ofResult (rounded p * (1 / y)))
  | .float x, .ratio q => if q.num = 0 then none else some (ofResult (x / rounded q))
  | .float x, .float y => if y == 0 then none else some (ofResult (x / y))
  | .infinity, b | .negativeInfinity, b =>
    if !b.isFinite then some .undefined else some (if b.isNegative then a.neg else a)
  | _, _ => none

/-- The remainder of a quotient, with the sign of the divisor. -/
def ratioRemainder (p q : Ratio) : Ratio :=
  .make (Int.fmod (p.num * q.den) (q.num * p.den)) (p.den * q.den)

/-- The remainder by a number other than zero, rounded once.  Only a machine number that is a multiple of an
integer leaves the integer zero. -/
def rem (a b : Coefficient) : Coefficient :=
  match a, b with
  | .ratio p, .ratio q => .ratio (ratioRemainder p q)
  | .float _, .ratio q =>
    match a.exactValue? with
    | some p =>
      let r := rounded (ratioRemainder p q)
      if q.den = 1 then ofResult r else .float r
    | none => .undefined
  | a, b =>
    match a.exactValue?, b.exactValue? with
    | some p, some q => .float (rounded (ratioRemainder p q))
    | _, _ => .undefined

end Coefficient

namespace Form

/-- The number that a form is. -/
def number? : Form → Option Coefficient
  | .ratio q => some (.ratio q)
  | .float x => some (.float x)
  | .constant .infinity => some .infinity
  | .constant .negativeInfinity => some .negativeInfinity
  | .constant .undefined => some .undefined
  | _ => none

/-- Whether a form is a number. -/
def isNumber (f : Form) : Bool := f.number?.isSome

/-- The integer that a form is. -/
def integer? : Form → Option Int
  | .ratio q => q.integer?
  | _ => none

/-- Whether a form is a number below zero. -/
def isNegativeNumber (f : Form) : Bool :=
  match f.number? with
  | some c => c.isNegative
  | none => false

/-- The number at the head of a product, and the other factors. -/
def splitCoefficient : Form → Coefficient × Form
  | .product (f :: fs) =>
    match f.number? with
    | some c => (c, ofFactors fs)
    | none => (.int 1, .product (f :: fs))
  | f =>
    match f.number? with
    | some c => (c, .int 1)
    | none => (.int 1, f)

/-! ## The other sign -/

/-- Factors with a number in front, which is joined to a number that stands first. -/
def withNumber (c : Coefficient) : List Form → List Form
  | [] => [c.form]
  | f :: fs =>
    if c.isOne then f :: fs
    else
      match f.number? with
      | some d => (c.mul d).form :: fs
      | none => c.form :: f :: fs

/-- Factors of the product with the other sign.  The complex infinity has no sign. -/
def oppositeFactors : List Form → List Form
  | .ratio q :: .constant .complexInfinity :: fs => .ratio q :: .complexInfinity :: fs
  | .ratio q :: fs => withNumber (.ratio q.neg) fs
  | .constant .complexInfinity :: fs => .complexInfinity :: fs
  | f :: fs =>
    match f.number? with
    | some c => c.neg.form :: fs
    | none => .int (-1) :: f :: fs
  | [] => [.int (-1)]

mutual

/-- The form with the other sign, a sum term by term. -/
def opposite : Form → Form
  | .ratio q => .ratio q.neg
  | .float x => (Coefficient.float x).neg.form
  | .constant .infinity => .constant .negativeInfinity
  | .constant .negativeInfinity => .constant .infinity
  | .constant .undefined => .undefined
  | .constant .complexInfinity => .complexInfinity
  | .product fs => ofFactors (oppositeFactors fs)
  | .sum ts => .sum (opposites ts)
  | f => .product [.int (-1), f]

/-- Several forms with the other signs. -/
def opposites : List Form → List Form
  | [] => []
  | t :: ts => opposite t :: opposites ts

end

/-- Base and exponent of a form.  A power of the reciprocal of an integer has that integer for a base, and
an exponential has Euler's number. -/
def baseExponent : Form → Form × Form
  | .power (.ratio ⟨1, d + 2⟩) e => (.int (d + 2 : Nat), e.opposite)
  | .power b e => (b, e)
  | .apply .exp a => (.constant .e, a)
  | f => (f, .int 1)

end Form

end ExprCalculus
