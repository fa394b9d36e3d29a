import ExprCalculus.Form.Reducer

/-!
# Reduced applications of functions

Functions are carried out at the places where their value is plain, at machine numbers by approximation, and
where they undo another function.  A minus sign is drawn out of odd functions and dropped in even ones.
-/

namespace ExprCalculus.Form

/-! ## Multiples of the circle constant -/

/-- A multiple of the circle constant. -/
def piTimes (q : Ratio) : Form :=
  if q.num = 0 then .int 0
  else if q = .ofInt 1 then .constant .pi
  else .product [.ratio q, .constant .pi]

/-- The ratio of a form to the circle constant. -/
def overPi? : Form → Option Ratio
  | .constant .pi => some (.ofInt 1)
  | .product [.ratio q, .constant .pi] => some q
  | _ => none

/-- The ratio of a form to the circle constant times the imaginary unit. -/
def overTurn? : Form → Option Ratio
  | .product [.constant .pi, .constant .imaginaryUnit] => some (.ofInt 1)
  | .product [.ratio q, .constant .pi, .constant .imaginaryUnit] => some q
  | _ => none

/-- Half the square root of a number. -/
def halfRoot (n : Nat) : Form := .product [.ratio ⟨1, 2⟩, .power (.int n) (.ratio ⟨1, 2⟩)]

/-- The cosine of a plain multiple of the circle constant between zero and a half. -/
def cosOfPi? (q : Ratio) : Option Form :=
  if q.num = 0 then some (.int 1)
  else if q = ⟨1, 6⟩ then some (halfRoot 3)
  else if q = ⟨1, 4⟩ then some (halfRoot 2)
  else if q = ⟨1, 3⟩ then some (.ratio ⟨1, 2⟩)
  else if q = ⟨1, 2⟩ then some (.int 0)
  else none

/-- The cosine of a multiple of the circle constant where it is plain. -/
def cosTurn? (q : Ratio) : Option Form :=
  let turns := Int.fdiv q.num (2 * q.den)
  let within := q.add (.ofInt (-2 * turns))
  let folded := if (Ratio.ofInt 1).less within then (Ratio.ofInt 2).add within.neg else within
  if (⟨1, 2⟩ : Ratio).less folded then (cosOfPi? ((Ratio.ofInt 1).add folded.neg)).map opposite
  else cosOfPi? folded

/-- The angles of plain sines. -/
def plainSines : List (Form × Ratio) :=
  [(.ratio ⟨1, 2⟩, ⟨1, 6⟩), (halfRoot 2, ⟨1, 4⟩), (halfRoot 3, ⟨1, 3⟩), (.int 1, ⟨1, 2⟩), (.int 0, ⟨0, 1⟩)]

/-- The angles of plain tangents. -/
def plainTangents : List (Form × Ratio) :=
  [(.product [.ratio ⟨1, 3⟩, .power (.int 3) (.ratio ⟨1, 2⟩)], ⟨1, 6⟩), (.int 1, ⟨1, 4⟩),
    (.power (.int 3) (.ratio ⟨1, 2⟩), ⟨1, 3⟩), (.int 0, ⟨0, 1⟩), (.constant .infinity, ⟨1, 2⟩)]

/-- Looks up an angle. -/
def angleOf? (table : List (Form × Ratio)) (f : Form) : Option Ratio :=
  (table.find? fun p => p.1.same f).map (·.2)

/-! ## Exponential and logarithm -/

/-- The argument of a logarithm. -/
def logArgument? : Form → Option Form
  | .apply .ln a => some a
  | _ => none

/-- The exponential of a multiple of a logarithm, as a power of the logarithm's argument. -/
def expOfProduct? (r : Reducer) (fs : List Form) : Option Form :=
  let rest := fs.filter fun f => f.logArgument?.isNone
  match fs.filterMap logArgument? with
  | [a] =>
    if rest.all fun f => f.isComparable && f.facts.finite ≠ some false then
      some (r.raise a (r.multiply rest))
    else none
  | _ => none

/-- The exponential of a multiple of a half turn. -/
def expOfTurn (q : Ratio) : Option Form :=
  if q.den = 1 then some (.int (if q.num % 2 = 0 then 1 else -1))
  else if q.den = 2 then
    some (if q.num % 4 = 1 then .imaginary else .product [.int (-1), .imaginary])
  else none

/-- The exponential of a sum, the parts of which that are carried out standing apart. -/
def expOfSum? (r : Reducer) (ts : List Form) : Option Form :=
  let isKept (t : Form) : Bool := t.isInt 1 || (r.apply .exp t).same (.apply .exp t)
  let inside := ts.filter isKept
  if inside.length = ts.length then none
  else
    let outside := (ts.filter fun t => !isKept t).map (r.apply .exp)
    some (r.multiply (outside ++ [.apply .exp (r.add inside)]))

/-- The exponential where it is plain. -/
def exponential? (r : Reducer) (a : Form) : Option Form :=
  match a.number? with
  | some .undefined => some .undefined
  | some .infinity => some (.constant .infinity)
  | some .negativeInfinity => some (.int 0)
  | some c => if c.isZero then some (.int 1) else if c.isOne then some (.constant .e) else none
  | none =>
    match a with
    | .constant .complexInfinity => some .undefined
    | .apply .ln b => some b
    | .product fs =>
      match a.overTurn?.bind expOfTurn with
      | some f => some f
      | none => expOfProduct? r fs
    | .sum ts => expOfSum? r ts
    | _ => none

/-- The coefficient of a multiple of the imaginary unit, which may be written as a root of minus one. -/
def overImaginary? : Form → Option Ratio
  | .constant .imaginaryUnit => some (.ofInt 1)
  | .product [.ratio q, .constant .imaginaryUnit] => some q
  | .power (.ratio ⟨-1, 1⟩) (.ratio ⟨.ofNat n, 2⟩) => some (.ofInt (if n / 2 % 2 = 0 then 1 else -1))
  | _ => none

/-- The logarithm of a number where it is plain. -/
def logarithmOfNumber? (r : Reducer) : Coefficient → Option Form
  | .undefined => some .undefined
  | .infinity | .negativeInfinity => some (.constant .infinity)
  | .ratio ⟨1, d + 2⟩ => some (r.negate (r.apply .ln (.int (d + 2 : Nat))))
  | c => if c.isZero then some .complexInfinity else if c.isOne then some (.int 0) else none

/-- The logarithm where it is plain.  That of a negative number is the one of its size and a half turn, that
of an imaginary number the one of its size and a quarter turn. -/
def logarithm? (r : Reducer) (a : Form) : Option Form :=
  match a.number?.bind (logarithmOfNumber? r) with
  | some f => some f
  | none =>
    match a with
    | .constant .e => some (.int 1)
    | .constant .complexInfinity => some .complexInfinity
    | a =>
      let inverse : Option Form :=
        match a with
        | .apply .exp b | .power (.constant .e) b => if b.facts.isReal then some b else none
        | _ => none
      match inverse with
      | some b => some b
      | none =>
        if a.isClosed && a.facts.isNegative && a.facts.finite ≠ some false then
          some (r.add [.product [.constant .pi, .imaginary], r.apply .ln (r.negate a)])
        else if a.facts.isZero then some .complexInfinity
        else
          a.overImaginary?.map fun q =>
            let quarter : Ratio := if q.isNegative then ⟨-1, 2⟩ else ⟨1, 2⟩
            r.add [.product [.ratio quarter, .constant .pi, .imaginary],
              r.apply .ln (.ratio ⟨q.num.natAbs, q.den⟩)]

/-! ## Trigonometric functions -/

/-- The square root of one and a multiple of a square. -/
def rootWithSquare (r : Reducer) (sign : Int) (x : Form) : Form :=
  r.raise (r.add [.int 1, r.multiply [.int sign, r.raise x (.int 2)]]) (.ratio ⟨1, 2⟩)

/-- A trigonometric function of an inverse one. -/
def ofInverse? (r : Reducer) (fn : Fn) (a : Form) : Option Form :=
  match fn, a with
  | .sin, .apply .arcsin x | .cos, .apply .arccos x | .tan, .apply .arctan x => some x
  | .sin, .apply .arctan x => some (r.divide x (rootWithSquare r 1 x))
  | .sin, .apply .arccos x | .cos, .apply .arcsin x => some (rootWithSquare r (-1) x)
  | .cos, .apply .arctan x => some (r.divide (.int 1) (rootWithSquare r 1 x))
  | .tan, .apply .arcsin x => some (r.divide x (rootWithSquare r (-1) x))
  | .tan, .apply .arccos x => some (r.divide (rootWithSquare r (-1) x) x)
  | _, _ => none

/-- A trigonometric function at a multiple of the circle constant. -/
def atAngle? (r : Reducer) (fn : Fn) (q : Ratio) : Option Form :=
  let cosine := cosTurn? q
  let sine := cosTurn? (q.add ⟨-1, 2⟩)
  match fn with
  | .sin => sine
  | .cos => cosine
  | .tan =>
    match sine, cosine with
    | some s, some c => some (r.divide s c)
    | _, _ => none
  | _ => none

/-- A trigonometric function where it is plain. -/
def trigonometric? (r : Reducer) (fn : Fn) (a : Form) : Option Form :=
  if a.same .undefined || a.same .complexInfinity then some .undefined
  else if a.facts.isZero then some (.int (if fn = .cos then 1 else 0))
  else if a.hasMinusSign then
    if fn = .cos then some (r.apply fn (r.negate a)) else some (r.negate (r.apply fn (r.negate a)))
  else
    match a.overPi? with
    | some q => atAngle? r fn q
    | none => ofInverse? r fn a

/-- The inverse sine or tangent where it is plain. -/
def inverseOdd? (r : Reducer) (fn : Fn) (a : Form) : Option Form :=
  if a.same .undefined then some .undefined
  else if a.facts.isZero then some (.int 0)
  else if a.hasMinusSign then some (r.negate (r.apply fn (r.negate a)))
  else if fn = .arcsin then (angleOf? plainSines a).map piTimes
  else (angleOf? plainTangents a).map piTimes

/-- The inverse cosine where it is plain. -/
def inverseCosine? (a : Form) : Option Form :=
  if a.same .undefined then some .undefined
  else if a.facts.isZero then some (piTimes ⟨1, 2⟩)
  else
    match angleOf? plainSines a, angleOf? plainSines a.opposite with
    | some q, _ => some (piTimes ((⟨1, 2⟩ : Ratio).add q.neg))
    | none, some q => some (piTimes ((⟨1, 2⟩ : Ratio).add q))
    | none, none => none

/-! ## Size and sign -/

/-- Whether a form is a power with a negative integer for an exponent. -/
def isReciprocal : Form → Bool
  | .power _ (.ratio q) => q.den = 1 && q.isNegative
  | _ => false

/-- The size of a factor where it is known. -/
def sizeOfFactor? (r : Reducer) (f : Form) : Option Form :=
  let known (g : Form) : Option Form :=
    match r.apply .abs g with
    | .apply .abs _ => none
    | v => some v
  match f with
  | .power b e => if f.isReciprocal then (known b).map fun v => r.raise v e else known f
  | f => known f

/-- The size of a product: that of the factors of known size, times the size of the others. -/
def sizeOfProduct (r : Reducer) (fs : List Form) : Form :=
  let known := fs.filterMap (sizeOfFactor? r)
  let unknown := fs.filter fun f => (sizeOfFactor? r f).isNone
  if unknown.isEmpty then r.multiply known
  else r.multiply (known ++ [.apply .abs (r.multiply unknown)])

/-- The size of a power of a real base. -/
def sizeOfPower? (r : Reducer) (b e : Form) : Option Form :=
  if !b.facts.isReal then none
  else
    match e.integer? with
    | some n => if n % 2 = 0 then some (.power b e) else some (r.raise (r.apply .abs b) e)
    | none =>
      if !e.facts.isReal then none
      else if b.facts.isNonnegative then some (r.raise b e)
      else if b.facts.isNegative then some (r.raise (r.negate b) e)
      else none

/-- The size where it is known. -/
def size? (r : Reducer) (a : Form) : Option Form :=
  match a with
  | .constant .undefined => some .undefined
  | .constant .complexInfinity => some (.constant .infinity)
  | .constant .imaginaryUnit => some (.int 1)
  | .product fs => some (sizeOfProduct r fs)
  | a =>
    let known := a.facts
    if known.isZero then some (.int 0)
    else if known.isNonnegative then some a
    else if known.isNonpositive then some (r.negate a)
    else
      match a with
      | .sum _ => if a.hasMinusSign then some (r.apply .abs (r.negate a)) else none
      | .power b e =>
        if a.isReciprocal && !b.isClosed then some (r.raise (r.apply .abs b) e) else sizeOfPower? r b e
      | _ => none

/-- The sign of a product: that of the factors of known sign, times the sign of the others. -/
def signOfProduct? (r : Reducer) (fs : List Form) : Option Form :=
  let isKnown (f : Form) : Bool := f.facts.isPositive || f.facts.isNegative
  let unknown := fs.filter fun f => !isKnown f
  if unknown.length = fs.length then none
  else
    let below := (fs.filter fun f => f.facts.isNegative).length
    let sign : Form := .int (if below % 2 = 1 then -1 else 1)
    if unknown.isEmpty then some sign
    else some (r.multiply [sign, r.apply .sgn (ofFactors unknown)])

/-- The sign where it is known. -/
def sign? (r : Reducer) (a : Form) : Option Form :=
  match a with
  | .constant .undefined => some .undefined
  | .product fs => signOfProduct? r fs
  | .apply .sgn b => some (.apply .sgn b)
  | a =>
    let known := a.facts
    if known.isZero then some (.int 0)
    else if known.isPositive then some (.int 1)
    else if known.isNegative then some (.int (-1))
    else none

/-! ## Integer parts -/

/-- Whether a form is an integer part. -/
def isIntegerPart : Form → Bool
  | .apply .floor _ | .apply .ceil _ => true
  | _ => false

/-- The integer part of a number. -/
def roundNumber (down : Bool) : Coefficient → Form
  | .infinity => .constant .infinity
  | .negativeInfinity => .constant .negativeInfinity
  | .undefined => .undefined
  | c =>
    match c.exactValue? with
    | some q => .int (if down then q.floor else q.ceil)
    | none => .undefined

/-- The integer that a form is known to be, as a form. -/
def integerValue? (f : Form) : Option Form :=
  match f with
  | .float x => (Binary64.integer? x).map .int
  | f => if f.facts.integer = some true then some f else none

/-- The integer part of a closed form. -/
def roundClosed? (down : Bool) (f : Form) : Option Form :=
  match (f.approx.bind (Approx.round down)) with
  | some (.exact q) => some (.ratio q)
  | _ => none

/-- The integer part of a sum: the terms that are integers stand apart. -/
def roundSum? (r : Reducer) (fn : Fn) (a : Form) : Option Form :=
  let whole := r.add (a.terms.filterMap integerValue?)
  let rest := a.terms.filter fun t => t.integerValue?.isNone
  let closed := rest.filter isClosed
  if rest.isEmpty then some whole
  else if closed.length = rest.length then
    (roundClosed? (fn = .floor) (r.add rest)).map fun n => r.add [whole, n]
  else if rest.length = a.terms.length then none
  else
    let left := r.add rest
    some (r.add [whole, if left.isIntegerPart then left else .apply fn left])

/-- The integer part where it is known. -/
def integerPart? (r : Reducer) (fn : Fn) (a : Form) : Option Form :=
  match a.number? with
  | some c => some (roundNumber (fn = .floor) c)
  | none =>
    if a.isIntegerPart || a.opposite.isIntegerPart then some a
    else if a.facts.integer = some true || a.facts.finite = some false then some a
    else roundSum? r fn a

/-! ## The application -/

/-- A function where its value is plain. -/
def plainValue? (r : Reducer) (fn : Fn) (a : Form) : Option Form :=
  match fn with
  | .exp => exponential? r a
  | .ln => logarithm? r a
  | .sqrt => some (r.raise a (.ratio ⟨1, 2⟩))
  | .sin | .cos | .tan => trigonometric? r fn a
  | .arcsin | .arctan => inverseOdd? r fn a
  | .arccos => inverseCosine? a
  | .abs => size? r a
  | .ceil | .floor => integerPart? r fn a
  | .sgn => sign? r a

/-- The reduced application of a function. -/
def reducedApplication (r : Reducer) (fn : Fn) (a : Form) : Form :=
  match plainValue? r fn a with
  | some v => v
  | none =>
    match a with
    | .float x =>
      match Approx.ofFloat? fn x with
      | some y => (Coefficient.ofResult y).form
      | none => .apply fn a
    | a => .apply fn a

end ExprCalculus.Form
