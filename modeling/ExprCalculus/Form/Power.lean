import ExprCalculus.Form.Reducer
import ExprCalculus.Number.Factor
import ExprCalculus.Number.Power

/-!
# Reduced powers

Powers of numbers are carried out where they are numbers, and perfect powers are taken out of roots.  A power
of a power multiplies the exponents where that keeps the value, an integer power of a product is distributed,
and a root of a product takes out the factors that are not negative.
-/

namespace ExprCalculus.Form

/-! ## Roots of integers -/

/-- A root of an integer as it is taken apart: a number, roots with smaller exponents, and the primes left
with their multiplicities. -/
structure RootParts where
  whole : Nat
  radicals : List Form
  left : List (Nat × Nat)

/-- Takes a prime with its multiplicity out of a root. -/
def RootParts.insert (r : Reducer) (e : Ratio) (parts : RootParts) (f : Nat × Nat) : RootParts :=
  let n := f.2 * e.num.toNat
  let out := n / e.den
  let rest := n % e.den
  let g := Nat.gcd rest e.den
  let whole := parts.whole * Nat.pow f.1 out
  if rest = 0 then { parts with whole }
  else if g = 1 then { parts with whole, left := parts.left ++ [(f.1, rest)] }
  else
    { parts with
      whole
      radicals := parts.radicals ++ [r.raise (.int f.1) (.ratio ⟨(rest / g : Nat), e.den / g⟩)] }

/-- A natural number of at least two to a positive ratio that is no integer; none if nothing comes out. -/
def rootOfNat? (r : Reducer) (n : Nat) (e : Ratio) : Option Form :=
  match Factor.exactRoot? n e.den with
  | some x => some (.int (Nat.pow x e.num.toNat))
  | none =>
    let primes :=
      match Factor.perfectPower? n with
      | some p => [p]
      | none => Factor.factors n
    let parts := primes.foldl (RootParts.insert r e) ⟨1, [], []⟩
    let g : Nat := parts.left.foldl (fun g f => Nat.gcd g f.2) 0
    let base := parts.left.foldl (fun b f => b * Nat.pow f.1 (f.2 / g)) 1
    if base = n && parts.whole = 1 && parts.radicals.isEmpty then none
    else
      let root := if parts.left.isEmpty then .int 1 else r.raise (.int base) (.ratio (.make (g : Int) e.den))
      some (r.multiply (.int parts.whole :: parts.radicals ++ [root]))

/-! ## Powers of numbers -/

/-- A power of minus one. -/
def powerOfMinusOne (r : Reducer) (e : Form) : Option Form :=
  match e with
  | .ratio q =>
    if q.den = 1 then some (.int (if q.num % 2 = 0 then 1 else -1))
    else if q = ⟨1, 2⟩ then some .imaginary
    else if q.den = 2 then some (r.raise .imaginary (.int q.num))
    else
      let whole := q.floor
      if whole = 0 then none
      else
        some (r.multiply [r.raise (.int (-1)) (.int whole),
          r.raise (.int (-1)) (.ratio (q.add (.ofInt (-whole))))])
  | .float x => some (r.raise (.float (-1.0)) (.float x))
  | .constant .infinity | .constant .negativeInfinity | .constant .undefined => some .undefined
  | _ => none

/-- A power of an integer of a size of at least two to a ratio that is no integer. -/
def rootOfInt (r : Reducer) (n : Int) (e : Ratio) : Option Form :=
  if e = ⟨1, 2⟩ && n < 0 then some (r.multiply [.imaginary, r.raise (.int (-n)) (.ratio e)])
  else if e.isNegative then
    if n < 0 then
      some (r.multiply [r.raise (.int (-1)) (.ratio e), r.raise (.ratio (.make 1 n.natAbs)) (.ratio e.neg)])
    else some (r.raise (.ratio (.make 1 n.natAbs)) (.ratio e.neg))
  else
    (rootOfNat? r n.natAbs e).map fun f =>
      if n < 0 then r.multiply [f, r.raise (.int (-1)) (.ratio e)] else f

/-- A power of a ratio that is no integer to a positive ratio that is no integer: the denominator is made
an integer. -/
def rootOfRatio (r : Reducer) (b e : Ratio) : Form :=
  let next := e.floor + 1
  let rest := (Ratio.ofInt next).add e.neg
  let below := Form.ratio (.make 1 (Nat.pow b.den next.toNat))
  let root := r.raise (.int b.den) (.ratio rest)
  if b.num = 1 then r.multiply [root, below]
  else r.multiply [r.multiply [r.raise (.int b.num) (.ratio e), root], below]

/-- The integer power of a ratio other than zero. -/
def integerPowerOf (b : Ratio) (n : Int) : Ratio :=
  if 0 ≤ n then b.pow n.toNat else (b.pow n.natAbs).inverse

/-- A power of a ratio other than zero and one. -/
def powerOfRatio (r : Reducer) (b : Ratio) (e : Form) : Option Form :=
  if b = .ofInt (-1) then powerOfMinusOne r e
  else
    match e with
    | .float _ => some (r.raise (.float (Coefficient.rounded b)) e)
    | .ratio q =>
      if q.den = 1 then some (.ratio (integerPowerOf b q.num))
      else if b.den = 1 then rootOfInt r b.num q
      else if q.isNegative then
        let flipped := r.raise (.ratio ⟨b.den, b.num.natAbs⟩) (.ratio q.neg)
        some (if b.isNegative then r.multiply [r.raise (.int (-1)) e, flipped] else flipped)
      else some (rootOfRatio r b q)
    | .constant .infinity =>
      if (Ratio.ofInt 1).less b then some (.constant .infinity)
      else if b.less (.ofInt (-1)) then
        some (r.add [.constant .infinity, r.multiply [.constant .infinity, .imaginary]])
      else some (.int 0)
    | .constant .negativeInfinity =>
      some (r.raise (.ratio b.inverse) (.constant .infinity))
    | _ => none

/-- A power of zero. -/
def powerOfZero (r : Reducer) (zero : Form) (e : Form) : Option Form :=
  let known := e.facts
  if known.isPositive then some zero
  else if known.isNegative then some .complexInfinity
  else if known.isNotReal then some .undefined
  else
    match e with
    | .product _ =>
      let (c, rest) := e.splitCoefficient
      if c.isNegative then some (r.raise .complexInfinity rest)
      else if !c.isOne then some (r.raise zero rest)
      else none
    | _ => none

/-- An integer power of a machine number. -/
def floatToInt (x : Float) (n : Int) : Coefficient :=
  match Coefficient.exactFloat? x with
  | some q =>
    let width := n.natAbs * (q.num.natAbs.log2 + q.den.log2 + 1)
    if width ≤ 200000 then .ofResult (Coefficient.rounded (integerPowerOf q n))
    else
      match Binary64.realPower x (Coefficient.rounded (.ofInt n)) with
      | .real y => .ofResult y
      | _ => .undefined
  | none => .undefined

/-- A power of a negative machine number to one that is no integer: that of its size, turned by as many half
turns as the exponent says. -/
def turnedPower (r : Reducer) (x y : Float) : Option Form :=
  match Approx.powFloat? (-x) y, (Coefficient.exactFloat? y).map Approx.exact with
  | some size, some turns =>
    (turns.mul (.real (FixedPoint.pi Approx.bits))).bind fun a =>
      a.parts?.map fun (angle, _) =>
        let (s, c) := FixedPoint.sinCos Approx.bits angle
        let part (v : Int) : Form :=
          (Coefficient.ofResult (size * FixedPoint.toFloat Approx.bits v)).form
        r.add [part c, r.multiply [part s, .imaginary]]
  | _, _ => none

/-- A power of a machine number. -/
def powerOfFloat (r : Reducer) (x : Float) (e : Form) : Option Form :=
  if x == 0 then
    if e.facts.isPositive then some (.float x)
    else if e.facts.isNegative then some .complexInfinity
    else none
  else
    let toFloat (y : Float) : Option Form :=
      match Binary64.integer? y with
      | some n => some (floatToInt x n).form
      | none =>
        if x < 0 then turnedPower r x y
        else (Approx.powFloat? x y).map fun z => (Coefficient.ofResult z).form
    match e with
    | .ratio q =>
      if q.den = 1 then some (floatToInt x q.num).form
      else if q.num = 1 && q.den % 2 = 1 && x < 0 then
        some (r.multiply [.power (.int (-1)) e, r.raise (.float (-x)) e])
      else toFloat (Coefficient.rounded q)
    | .float y => toFloat y
    | _ => none

/-- A power of infinity. -/
def powerOfInfinity (e : Form) : Option Form :=
  if e.facts.isPositive then some (.constant .infinity)
  else if e.facts.isNegative then some (.int 0)
  else none

/-- A power of minus infinity. -/
def powerOfNegativeInfinity (r : Reducer) (e : Form) : Option Form :=
  if !e.isClosed then none
  else
    match e.number? with
    | some .infinity | some .negativeInfinity | some .undefined => some .undefined
    | _ =>
      match e.integer? with
      | some (.ofNat n) => some (.constant (if n % 2 = 1 then .negativeInfinity else .infinity))
      | _ =>
        let size := r.raise (.constant .infinity) e
        if size.isInt 0 then some size else some (r.multiply [r.raise (.int (-1)) e, size])

/-- A power of the complex infinity. -/
def powerOfComplexInfinity (e : Form) : Option Form :=
  match e.number? with
  | some .undefined => some .undefined
  | some c =>
    if c.isZero then some .undefined
    else if c.isPositive && c.isFinite then some .complexInfinity
    else some (.int 0)
  | none => none

/-- A power of the imaginary unit. -/
def powerOfImaginary (e : Form) : Option Form :=
  match e with
  | .ratio q =>
    if q.den = 1 then
      match (q.num % 4).toNat with
      | 0 => some (.int 1)
      | 1 => some .imaginary
      | 2 => some (.int (-1))
      | _ => some (.product [.int (-1), .imaginary])
    else
      let pairs := Int.fdiv q.num (2 * q.den)
      let rest := q.add (.ofInt (-2 * pairs))
      let root := Form.power .imaginary (.ratio rest)
      some (if pairs % 2 = 1 then .product [.int (-1), root] else root)
  | _ => none

/-! ## Powers of other forms -/

/-- A factor of a product under a root: taken out if it is known not to be negative; else kept, negative
numbers apart. -/
structure UnderRoot where
  outside : List Form
  negative : List Form
  other : List Form

/-- Sorts the factors under a root. -/
def UnderRoot.ofFactors (fs : List Form) : UnderRoot :=
  fs.foldl
    (fun u f =>
      let known := f.facts
      if known.isNonnegative then { u with outside := u.outside ++ [f] }
      else if !known.zero && !known.positive && !f.same .imaginary then
        { u with negative := u.negative ++ [f] }
      else { u with other := u.other ++ [f] })
    ⟨[], [], []⟩

/-- Brings negative factors out with their sign changed, and leaves what remains of the sign inside. -/
def UnderRoot.settle (u : UnderRoot) : List Form × List Form :=
  match u.negative with
  | [] => (u.outside, u.other)
  | [n] =>
    if u.other.isEmpty then (u.outside, [n])
    else if n.isNumber && !n.isInt (-1) then (u.outside ++ [n.opposite], u.other ++ [.int (-1)])
    else (u.outside, u.other ++ [n])
  | n :: ns =>
    let first := u.other.isEmpty && n.isNumber
    let turned := if first then ns else n :: ns
    let sign := turned.length % 2 = 1
    let inside :=
      if first then (if sign then n.opposite else n) else .int (if sign then -1 else 1)
    (u.outside ++ turned.map opposite, u.other ++ (if inside.isInt 1 then [] else [inside]))

/-- A product to an exponent that is no integer. -/
def rootOfProduct (r : Reducer) (fs : List Form) (e : Form) : Form :=
  let (outside, inside) := (UnderRoot.ofFactors fs).settle
  let isRoot (f : Form) : Bool :=
    match f with
    | .power b (.ratio _) => b.isClosed
    | _ => false
  let numeric := outside.filter isRoot
  let rest := outside.filter fun f => !isRoot f
  let out := numeric.map (fun f => r.raise f e) ++ rest.map fun f => .power f e
  if inside.isEmpty then r.multiply out
  else r.multiply (out ++ [.power (r.multiply inside) e])

/-- A power of a product. -/
def powerOfProduct (r : Reducer) (fs : List Form) (e : Form) : Option Form :=
  match e with
  | .ratio q =>
    if q.den = 1 then some (r.multiply (fs.map fun f => .power f e)) else some (rootOfProduct r fs e)
  | .float _ => some (rootOfProduct r fs e)
  | _ => none

/-- Whether the size of a number is below one. -/
def isSmall (f : Form) : Bool :=
  match f.number? with
  | some c => c.size.order (.int 1) == .lt
  | none => false

/-- Whether an exponent is half an odd number. -/
def isHalf : Form → Bool
  | .ratio q => q.den = 2
  | _ => false

/-- A power of a power: exponents are multiplied if the outer one is an integer, the inner one lies between
minus one and one, or the base is not negative. -/
def powerOfPower (r : Reducer) (b e : Form) (outer : Form) : Option Form :=
  let product (b : Form) : Form := r.raise b (r.multiply [e, outer])
  if outer.facts.integer = some true then some (product b)
  else if e.facts.isReal then
    if e.isInt (-1) && isHalf outer && b.facts.isNegative then
      some (r.multiply [r.raise (.int (-1)) outer, r.raise (r.negate b) (r.multiply [e, outer])])
    else if e.isInt (-1) && isHalf outer && !b.facts.negative then some (r.raise b (r.negate outer))
    else
      let even := (e.integer?.map fun n => n % 2 == 0).getD false
      let base := if even && b.facts.isReal then r.apply .abs b else b
      if isSmall e || e.isInt 1 || base.facts.isNonnegative then some (product base) else none
  else none

/-- A power of the size of a real form. -/
def powerOfSize (r : Reducer) (a e : Form) : Option Form :=
  match e.integer? with
  | some n =>
    if !a.facts.isReal then none
    else if n % 2 = 0 then some (r.raise a e)
    else if n = -1 then none
    else some (r.multiply [r.raise a (.int (n - 1)), .apply .abs a])
  | none => none

/-- Real and imaginary coefficient of a sum of a number and a multiple of the imaginary unit. -/
def complexNumber? : List Form → Option (Coefficient × Coefficient)
  | [a, b] =>
    match a.number?, b.splitCoefficient with
    | some x, (y, .constant .imaginaryUnit) => some (x, y)
    | _, _ => none
  | _ => none

/-- The greatest size of the coefficients of terms. -/
def greatestSize (cs : List Coefficient) : Coefficient :=
  cs.foldl (fun m c => if c.size.order m == .lt then m else c.size) (.int 0)

/-- A power of a sum.  The reciprocal of a complex number is made real below the stroke; if there are machine
numbers among the coefficients, the greatest is taken out. -/
def powerOfSum (r : Reducer) (ts : List Form) (e : Form) : Option Form :=
  match e.number? with
  | none => none
  | some n =>
    match complexNumber? ts with
    | some (x, y) =>
      if n.isMinusOne then
        let below := r.divide (.int 1) (r.add [r.raise x.form (.int 2), r.raise y.form (.int 2)])
        some (.product (inOrder [below, r.subtract x.form (r.multiply [y.form, .imaginary])]))
      else none
    | none =>
      if n.size.isOne || (n.isRatio && allClosed ts) then none
      else
        let parts := ts.map splitCoefficient
        let big := greatestSize (parts.map (·.1))
        let isFloat (c : Coefficient) : Bool := c.isFinite && !c.isRatio
        if parts.any (fun p => isFloat p.1) && big.isFinite && !big.isOne then
          let scaled := parts.map fun (c, f) =>
            let d :=
              if c.size.order big == .eq then (if c.isNegative then Form.int (-1) else .int 1)
              else r.divide c.form big.form
            r.multiply [d, f]
          some (r.multiply [r.raise big.form e, r.raise (r.add scaled) e])
        else none

/-- A power of a form whose base is no number and whose exponent is neither zero nor one. -/
def powerOfForm (r : Reducer) (b e : Form) : Option Form :=
  match b with
  | .constant .e => some (r.apply .exp e)
  | .constant .complexInfinity => powerOfComplexInfinity e
  | .constant .imaginaryUnit => powerOfImaginary e
  | .product fs => powerOfProduct r fs e
  | .sum ts => powerOfSum r ts e
  | .power _ _ => powerOfPower r b.baseExponent.1 b.baseExponent.2 e
  | .apply .exp a => powerOfPower r (.constant .e) a e
  | .apply .abs a => powerOfSize r a e
  | _ => none

/-- A power of a number to an exponent that is neither zero nor one. -/
def powerOfNumber (r : Reducer) (c : Coefficient) (e : Form) : Option Form :=
  match c with
  | .ratio q => if q.num = 0 then powerOfZero r (.ratio q) e else powerOfRatio r q e
  | .float x => powerOfFloat r x e
  | .infinity => powerOfInfinity e
  | .negativeInfinity => powerOfNegativeInfinity r e
  | .undefined => some .undefined

/-! ## The power -/

/-- A power to infinity, by the size of the base. -/
def toInfinity? (b : Form) : Option Form :=
  let compared (n : Int) : Option Int := (b.approx.bind fun v => v.add (.exact (.ofInt (-n)))).bind Approx.sign?
  match compared 1, compared (-1) with
  | some up, some down =>
    if 0 < up then some (.constant .infinity)
    else if up < 0 && 0 < down then some (.int 0)
    else if down < 0 then
      some (if b.same (.constant .negativeInfinity) then .undefined else .complexInfinity)
    else none
  | _, _ => none

/-- What is left of an exponent over the logarithm of the base. -/
def overLogarithm? (r : Reducer) (b e : Form) : Option Form :=
  match e with
  | .product fs =>
    let isLog (f : Form) : Bool := f.same (.power (.apply .ln b) (.int (-1)))
    if fs.any isLog then some (r.multiply (fs.filter fun f => !isLog f)) else none
  | _ => none

/-- The reduced power of a base that has no sign to lose. -/
def powerOfBase (r : Reducer) (b e : Form) : Form :=
  if b.same .undefined || e.same .undefined then .undefined
  else if b.isInt 1 then (if e.facts.finite = some false then .undefined else .int 1)
  else
    match overLogarithm? r b e with
    | some x => r.apply .exp x
    | none =>
      let result :=
        match b.number? with
        | some c => powerOfNumber r c e
        | none => powerOfForm r b e
      result.getD (.power b e)

/-- The reduced power of forms. -/
def reducedPower (r : Reducer) (b e : Form) : Form :=
  if e.same .complexInfinity then .undefined
  else if e.isInt 0 then .int 1
  else if e.isInt 1 then b
  else if e.isInt (-1) && (b.isInt 0 || b.same (.float 0.0)) then .complexInfinity
  else
    match (if e.same (.constant .infinity) then toInfinity? b else none) with
    | some f => f
    | none =>
      let signed :=
        match b with
        | .product _ => b.isClosed && b.hasMinusSign
        | b => b.isNegativeNumber
      match e.integer? with
      | some n =>
        if signed then
          if n % 2 = 0 then powerOfBase r b.opposite e
          else r.negate (r.raise b.opposite e)
        else powerOfBase r b e
      | none => powerOfBase r b e

end ExprCalculus.Form
