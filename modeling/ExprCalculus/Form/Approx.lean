import ExprCalculus.Form.Coefficient
import ExprCalculus.Number.FixedPoint

/-!
# Approximate values of closed forms

The value of a form without symbols is computed exactly as long as it is a ratio, and otherwise in fixed
point with many more bits than a machine number has.  A number so small that it may as well be zero has no
sign.
-/

namespace ExprCalculus

/-- The value of a closed form; real and imaginary parts are in units of `2 ^ -Approx.bits`. -/
inductive Approx where
  | exact (q : Ratio)
  | real (x : Int)
  | complex (x y : Int)
  | infinite (negative : Bool)

namespace Approx

/-- The bits after the point. -/
def bits : Nat := 448

/-- The bits at the end of a result that may be wrong. -/
def doubtfulBits : Nat := 64

/-- The greatest size of an exponent that is computed with. -/
def exponentLimit : Nat := 20000

/-- A ratio in fixed point. -/
def fixed (q : Ratio) : Int := FixedPoint.ofQuotient bits q.num q.den

/-- Real and imaginary part of a finite value. -/
def parts? : Approx → Option (Int × Int)
  | .exact q => some (fixed q, 0)
  | .real x => some (x, 0)
  | .complex x y => some (x, y)
  | .infinite _ => none

/-- The value with given parts. -/
def ofParts (x y : Int) : Approx := if y = 0 then .real x else .complex x y

/-- The sign of a real value, as `-1`, `0` or `1`; none if it is not real or too close to zero. -/
def sign? : Approx → Option Int
  | .exact q => some q.num.sign
  | .real x => if x.natAbs < twoPow doubtfulBits then none else some x.sign
  | .infinite negative => some (if negative then -1 else 1)
  | .complex .. => none

/-- Whether the value is real. -/
def isReal : Approx → Bool
  | .complex .. => false
  | _ => true

/-- Whether the value is exactly zero. -/
def isZero : Approx → Bool
  | .exact q => q.num = 0
  | _ => false

/-- Real and imaginary part as machine numbers. -/
def floats : Approx → Float × Float
  | .exact q => (Coefficient.rounded q, 0)
  | .real x => (FixedPoint.toFloat bits x, 0)
  | .complex x y => (FixedPoint.toFloat bits x, FixedPoint.toFloat bits y)
  | .infinite negative => (if negative then -infinity else infinity, 0)

/-! ## Arithmetic -/

/-- Sum. -/
def add (a b : Approx) : Option Approx :=
  match a, b with
  | .exact p, .exact q => some (.exact (p.add q))
  | .infinite s, .infinite t => if s = t then some (.infinite s) else none
  | .infinite s, b => if b.isReal then some (.infinite s) else none
  | a, .infinite t => if a.isReal then some (.infinite t) else none
  | a, b =>
    match a.parts?, b.parts? with
    | some (x, y), some (z, w) => some (ofParts (x + z) (y + w))
    | _, _ => none

/-- Product of complex numbers in fixed point. -/
def mulParts (a b : Int × Int) : Int × Int :=
  (FixedPoint.mul bits a.1 b.1 - FixedPoint.mul bits a.2 b.2,
    FixedPoint.mul bits a.1 b.2 + FixedPoint.mul bits a.2 b.1)

/-- Product.  An infinite one has the sign of its infinite factors. -/
def mul (a b : Approx) : Option Approx :=
  match a, b with
  | .exact p, .exact q => some (.exact (p.mul q))
  | .infinite s, .infinite t => some (.infinite (s != t))
  | .infinite s, b => if b.isZero then none else some (.infinite s)
  | a, .infinite t => if a.isZero then none else some (.infinite t)
  | a, b =>
    if a.isZero || b.isZero then some (.exact (.ofInt 0))
    else
      match a.parts?, b.parts? with
      | some u, some v => some (ofParts (mulParts u v).1 (mulParts u v).2)
      | _, _ => none

/-- Whether a number in fixed point is far enough from zero to divide by it. -/
def isAway (x : Int) : Bool := twoPow doubtfulBits ≤ x.natAbs

/-- Reciprocal of a complex number in fixed point. -/
def inverseParts (a : Int × Int) : Option (Int × Int) :=
  if a.2 = 0 then
    if isAway a.1 then some (FixedPoint.div bits (FixedPoint.one bits) a.1, 0) else none
  else
    let norm := FixedPoint.mul bits a.1 a.1 + FixedPoint.mul bits a.2 a.2
    if isAway norm then some (FixedPoint.div bits a.1 norm, -(FixedPoint.div bits a.2 norm)) else none

/-- A natural power of a complex number in fixed point, by repeated squaring. -/
def powParts : Nat → Nat → Int × Int → Int × Int
  | 0, _, _ => (FixedPoint.one bits, 0)
  | fuel + 1, n, a =>
    if n = 0 then (FixedPoint.one bits, 0)
    else
      let half := powParts fuel (n / 2) (mulParts a a)
      if n % 2 = 1 then mulParts a half else half

/-! ## Exponential and logarithm -/

/-- Exponential of a complex number in fixed point. -/
def expParts (a : Int × Int) : Option (Int × Int) :=
  if exponentLimit * twoPow bits < a.1.natAbs then none
  else
    let size := FixedPoint.exp bits a.1
    if a.2 = 0 then some (size, 0)
    else
      let (s, c) := FixedPoint.sinCos bits a.2
      some (FixedPoint.mul bits size c, FixedPoint.mul bits size s)

/-- The size of a complex number in fixed point. -/
def sizeParts (a : Int × Int) : Int :=
  if a.2 = 0 then a.1.natAbs
  else FixedPoint.sqrt bits (FixedPoint.mul bits a.1 a.1 + FixedPoint.mul bits a.2 a.2)

/-- Logarithm of a complex number in fixed point. -/
def lnParts (a : Int × Int) : Option (Int × Int) :=
  let size := sizeParts a
  if isAway size then some (FixedPoint.ln bits size, FixedPoint.angle bits a.1 a.2) else none

/-- An integer power. -/
def powInt (a : Approx) (n : Int) : Option Approx :=
  match a with
  | .exact q =>
    let width := n.natAbs * (q.num.natAbs.log2 + q.den.log2 + 1)
    if 2 * exponentLimit < width then none
    else if 0 ≤ n then some (.exact (q.pow n.toNat))
    else if q.num = 0 then none
    else some (.exact (q.pow n.natAbs).inverse)
  | .infinite _ => none
  | a =>
    a.parts?.bind fun u =>
      if 2 * exponentLimit < n.natAbs * ((sizeParts u).natAbs.log2 + 1 - bits) then none
      else
        let v := powParts (n.natAbs.log2 + 1) n.natAbs u
        if 0 ≤ n then some (ofParts v.1 v.2) else (inverseParts v).map fun w => ofParts w.1 w.2

/-- Power. -/
def pow (a b : Approx) : Option Approx :=
  match b with
  | .exact ⟨n, 1⟩ => a.powInt n
  | b =>
    if a.isZero then (if b.sign? = some 1 then some (.exact (.ofInt 0)) else none)
    else
      match a.parts?, b.parts? with
      | some u, some v =>
        (lnParts u).bind fun w => (expParts (mulParts v w)).map fun r => ofParts r.1 r.2
      | _, _ => none

/-! ## Functions -/

/-- The integer below or above a value that is not too close to an integer. -/
def round (down : Bool) : Approx → Option Approx
  | .exact q => some (.exact (.ofInt (if down then q.floor else q.ceil)))
  | .real x =>
    let below := Int.fdiv x (twoPow bits)
    let rest := x - below * twoPow bits
    if isAway rest && isAway (rest - FixedPoint.one bits) then
      some (.exact (.ofInt (if down then below else below + 1)))
    else none
  | _ => none

/-- A function of a real number in fixed point. -/
def ofReal (fn : Fn) (x : Int) : Option Approx :=
  match fn with
  | .sin => some (.real (FixedPoint.sinCos bits x).1)
  | .cos => some (.real (FixedPoint.sinCos bits x).2)
  | .tan =>
    let (s, c) := FixedPoint.sinCos bits x
    if isAway c then some (.real (FixedPoint.div bits s c)) else none
  | .arctan => some (.real (FixedPoint.arctan bits x))
  | .arcsin =>
    if x.natAbs ≤ twoPow bits then some (.real (FixedPoint.arcsin bits x)) else none
  | .arccos =>
    if x.natAbs ≤ twoPow bits then
      some (.real (Int.tdiv (FixedPoint.pi bits) 2 - FixedPoint.arcsin bits x))
    else none
  | _ => none

/-- A function of a value. -/
def apply (fn : Fn) (a : Approx) : Option Approx :=
  match fn with
  | .exp => a.parts?.bind fun u => (expParts u).map fun v => ofParts v.1 v.2
  | .ln => a.parts?.bind fun u => (lnParts u).map fun v => ofParts v.1 v.2
  | .sqrt => a.pow (.exact ⟨1, 2⟩)
  | .abs =>
    match a with
    | .exact q => some (.exact ⟨q.num.natAbs, q.den⟩)
    | .infinite _ => some (.infinite false)
    | a => a.parts?.map fun u => .real (sizeParts u)
  | .floor => a.round true
  | .ceil => a.round false
  | .sgn => a.sign?.map fun s => .exact (.ofInt s)
  | fn => if a.isReal then a.parts?.bind fun u => ofReal fn u.1 else none

end Approx

namespace Form

mutual

/-- The value of a closed form, where it can be found.  That of a remainder never is. -/
def approx : Form → Option Approx
  | .ratio q => some (.exact q)
  | .float x => (Coefficient.exactFloat? x).map .exact
  | .constant .e => some (.real (FixedPoint.exp Approx.bits (FixedPoint.one Approx.bits)))
  | .constant .pi => some (.real (FixedPoint.pi Approx.bits))
  | .constant .infinity => some (.infinite false)
  | .constant .negativeInfinity => some (.infinite true)
  | .constant .imaginaryUnit => some (.complex 0 (FixedPoint.one Approx.bits))
  | .sum ts => approxSum ts
  | .product fs => approxProduct fs
  | .power a b =>
    match approx a, approx b with
    | some x, some y => x.pow y
    | _, _ => none
  | .apply fn a => (approx a).bind (Approx.apply fn)
  | _ => none

/-- The value of a sum. -/
def approxSum : List Form → Option Approx
  | [] => some (.exact (.ofInt 0))
  | t :: ts =>
    match approx t, approxSum ts with
    | some x, some y => x.add y
    | _, _ => none

/-- The value of a product. -/
def approxProduct : List Form → Option Approx
  | [] => some (.exact (.ofInt 1))
  | f :: fs =>
    match approx f, approxProduct fs with
    | some x, some y => x.mul y
    | _, _ => none

end

end Form

/-! ## Functions of machine numbers -/

namespace Approx

/-- The bits after the point that leave enough of a result near a machine number. -/
def bitsFor (q : Ratio) : Nat := 160 + 2 * (q.num.natAbs.log2 + q.den.log2)

/-- A function of a machine number, rounded once; none where the result is not real or the function is not
among the exponential, the logarithm and the trigonometric functions. -/
def ofFloat? (fn : Fn) (x : Float) : Option Float :=
  (Coefficient.exactFloat? x).bind fun q =>
    let n := bitsFor q
    let y := FixedPoint.ofQuotient n q.num q.den
    let inside := q.num.natAbs ≤ q.den
    match fn with
    | .exp =>
      if (Ratio.ofInt 800).less q then some infinity
      else if q.less (.ofInt (-800)) then some 0.0
      else
        let n := n + 2400
        some (FixedPoint.toFloat n (FixedPoint.exp n (FixedPoint.ofQuotient n q.num q.den)))
    | .ln => if 0 < q.num then some (FixedPoint.toFloat n (FixedPoint.ln n y)) else none
    | .sin => some (FixedPoint.toFloat n (FixedPoint.sinCos n y).1)
    | .cos => some (FixedPoint.toFloat n (FixedPoint.sinCos n y).2)
    | .tan =>
      let (s, c) := FixedPoint.sinCos n y
      some (FixedPoint.toFloat n (FixedPoint.div n s c))
    | .arctan => some (FixedPoint.toFloat n (FixedPoint.arctan n y))
    | .arcsin => if inside then some (FixedPoint.toFloat n (FixedPoint.arcsin n y)) else none
    | .arccos =>
      if inside then
        some (FixedPoint.toFloat n (Int.tdiv (FixedPoint.pi n) 2 - FixedPoint.arcsin n y))
      else none
    | _ => none

/-- A power of positive machine numbers, rounded once. -/
def powFloat? (x y : Float) : Option Float :=
  match Coefficient.exactFloat? x, Coefficient.exactFloat? y with
  | some p, some q =>
    if p.num ≤ 0 then none
    else
      let n := 2600 + bitsFor p + bitsFor q
      let w := FixedPoint.mul n (FixedPoint.ln n (FixedPoint.ofQuotient n p.num p.den))
        (FixedPoint.ofQuotient n q.num q.den)
      if 800 * twoPow n < w.natAbs then some (if w < 0 then 0.0 else infinity)
      else some (FixedPoint.toFloat n (FixedPoint.exp n w))
  | _, _ => none

end Approx

end ExprCalculus
