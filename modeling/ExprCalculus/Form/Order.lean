import ExprCalculus.Form.Approx
import ExprCalculus.Number.Decimal

/-!
# The orders of factors and terms

There are two orders.  Within a reduced form terms and factors stand in the order of `order`: by the class of
a form, then by the number of its parts, then by the parts.  Where a form is read out, factors stand in the
order of their keys, numbers first by value, then constants and symbols by name, then the rest by base; and
the terms of a sum stand in the order of monomials, a higher power of the first base coming first.
-/

namespace ExprCalculus

/-- The name of a constant's kind. -/
def Constant.kindName : Constant → String
  | .e => "Exp1"
  | .pi => "Pi"
  | .complexInfinity => "ComplexInfinity"
  | .infinity => "Infinity"
  | .negativeInfinity => "NegativeInfinity"
  | .imaginaryUnit => "ImaginaryUnit"
  | .undefined => "NaN"

namespace Form

/-! ## The order within reduced forms -/

/-- The place of the classes that have none of their own. -/
def lastPlace : Nat := 1000

/-- The place of a ratio among the classes. -/
def ratioPlace (q : Ratio) : Nat :=
  if q = ⟨0, 1⟩ then 0
  else if q = ⟨1, 1⟩ then 1
  else if q = ⟨1, 2⟩ then 2
  else if q = ⟨-1, 1⟩ then 5
  else if q.den = 1 then 7
  else 8

/-- The place of a form's class, and its name among the classes that share the last place. -/
def classPlace : Form → Nat × String
  | .ratio q => (ratioPlace q, "")
  | .float _ => (9, "")
  | .constant .infinity => (3, "")
  | .constant .undefined => (4, "")
  | .constant .negativeInfinity => (6, "")
  | .constant .e => (10, "")
  | .constant .pi => (11, "")
  | .constant .imaginaryUnit => (12, "")
  | .constant .complexInfinity => (lastPlace, "ComplexInfinity")
  | .symbol _ => (13, "")
  | .power .. => (16, "")
  | .product _ => (17, "")
  | .sum _ => (18, "")
  | .apply .abs _ => (21, "")
  | .apply fn _ => (lastPlace, fn.formName)
  | .modulo .. => (lastPlace, "Mod")
  | .unknown f _ => (lastPlace, f)
  | .matrix _ => (lastPlace, "ImmutableDenseMatrix")
  | .interval .. => (lastPlace, "Interval")
  | .emptySet => (lastPlace, "EmptySet")
  | .finiteSet _ => (lastPlace, "FiniteSet")

/-- A number without its factors of two, and how many there are. -/
def oddPart : Nat → Nat → Nat × Nat
  | 0, n => (n, 0)
  | fuel + 1, n =>
    if n ≠ 0 ∧ n % 2 = 0 then
      let (odd, twos) := oddPart fuel (n / 2)
      (odd, twos + 1)
    else (n, 0)

/-- The order of two machine numbers within reduced forms: by sign, odd part and exponent. -/
def floatOrder (x y : Float) : Ordering :=
  match Dyadic.ofFloat? x, Dyadic.ofFloat? y with
  | some a, some b =>
    let (m, i) := oddPart 64 a.mantissa
    let (n, j) := oddPart 64 b.mantissa
    (compare a.negative.toNat b.negative.toNat).then <|
      (compare m n).then (compare (a.exponent + i) (b.exponent + j))
  | _, _ => .eq

mutual

/-- The order of two forms within reduced forms. -/
def order (a b : Form) : Ordering :=
  let (i, s) := a.classPlace
  let (j, t) := b.classPlace
  (compare i j).then <| (compare s t).then <|
    match a, b with
    | .ratio p, .ratio q => (compare p.num q.num).then (compare p.den q.den)
    | .float x, .float y => floatOrder x y
    | .symbol x, .symbol y => compare x y
    | .sum as, .sum bs | .product as, .product bs | .unknown _ as, .unknown _ bs
    | .matrix as, .matrix bs => (compare as.length bs.length).then (orderAll as bs)
    | .power a b, .power c d | .modulo a b, .modulo c d | .interval a b, .interval c d =>
      (order a c).then (order b d)
    | .apply _ a, .apply _ b | .finiteSet a, .finiteSet b => order a b
    | _, _ => .eq

/-- The order of two lists of forms of the same length. -/
def orderAll : List Form → List Form → Ordering
  | a :: as, b :: bs => (order a b).then (orderAll as bs)
  | _, _ => .eq

end

/-- Forms in the order within reduced forms. -/
def inOrder (fs : List Form) : List Form := fs.mergeSort fun a b => order a b != .gt

/-! ## Keys -/

/-- What the order of factors depends on: the kind of the base, the place and name within the kind, the
parts of the base, the exponent and the coefficient. -/
inductive Key where
  | text (s : String)
  | node (kind place : Nat) (name : String) (parts : List Key) (exponent : Key) (coefficient : Coefficient)

mutual

/-- The order of two keys. -/
def Key.order : Key → Key → Ordering
  | .text s, .text t => compare s t
  | .text _, .node .. => .lt
  | .node .., .text _ => .gt
  | .node a b s ps x c, .node d e t qs y f =>
    (compare a d).then <| (compare b e).then <| (compare s t).then <|
      (compare ps.length qs.length).then <| (Key.listOrder ps qs).then <|
        (Key.order x y).then (c.order f)

/-- The order of two lists of keys of the same length. -/
def Key.listOrder : List Key → List Key → Ordering
  | p :: ps, q :: qs => (Key.order p q).then (Key.listOrder ps qs)
  | _, _ => .eq

end

/-- The key of a number. -/
def Key.number (c : Coefficient) : Key := .node 1 0 "Number" [] (.text "") c

/-- The place of a function among functions, if its name has one. -/
def functionPlace? (name : String) : Option Nat :=
  [("exp", 10), ("log", 11), ("sin", 20), ("cos", 21), ("tan", 22), ("cot", 23), ("sinh", 30), ("cosh", 31),
    ("tanh", 32), ("coth", 33), ("conjugate", 40), ("re", 41), ("im", 42), ("arg", 43)].lookup name

/-- The kind of a form, and its place and name within the kind. -/
def kindOf : Form → Nat × Nat × String
  | .ratio _ | .float _ | .constant .infinity | .constant .negativeInfinity | .constant .undefined =>
    (1, 0, "Number")
  | .constant c => (2, 0, c.kindName)
  | .symbol _ => (2, 0, "Symbol")
  | .product _ => (3, 0, "Mul")
  | .sum _ => (3, 1, "Add")
  | .power .. => (3, 2, "Pow")
  | .unknown f _ => (4, (functionPlace? f).getD 0, f)
  | .apply fn _ => (4, (functionPlace? fn.formName).getD 10000, fn.formName)
  | .modulo .. => (4, 10000, "Mod")
  | .matrix _ => (5, 0, "ImmutableDenseMatrix")
  | .interval .. => (5, 0, "Interval")
  | .emptySet => (5, 0, "EmptySet")
  | .finiteSet _ => (5, 0, "FiniteSet")

/-- The text by which a form without parts is ordered. -/
def atomText : Form → String
  | .ratio q => Decimal.intText q.num ++ (if q.den = 1 then "" else "/" ++ Nat.repr q.den)
  | .float x => Decimal.floatText x
  | .constant .e => "E"
  | .constant .pi => "pi"
  | .constant .complexInfinity => "zoo"
  | .constant .infinity => "oo"
  | .constant .negativeInfinity => "-oo"
  | .constant .imaginaryUnit => "I"
  | .constant .undefined => "nan"
  | .symbol x => x
  | _ => ""

/-- Forms in the order of given keys. -/
def byKeys (key : Form → Key) (fs : List Form) : List Form :=
  ((fs.map fun f => (key f, f)).mergeSort fun a b => a.1.order b.1 != .gt).map (·.2)

/-! ## The order of factors -/

/-- Factors with the sign of a negative number in front set apart. -/
def splitSign : List Form → List Form
  | f :: fs =>
    match f.number? with
    | some c => if c.isNegative && !c.isMinusOne then .int (-1) :: c.neg.form :: fs else f :: fs
    | none => f :: fs
  | [] => []

/-- Factors in the order of given keys. -/
def orderFactors (key : Form → Key) (fs : List Form) : List Form := byKeys key (splitSign fs)

/-! ## The order of terms -/

/-- A term as a monomial: a complex coefficient and the powers of the bases. -/
structure Monomial where
  re : Float
  im : Float
  powers : List (Form × Int)

/-- Base and integer exponent of a factor.  The denominator and the symbols of an exponent go to the base. -/
def splitPower (f : Form) : Form × Int :=
  let (b, e) := f.baseExponent
  match e.number? with
  | some (.ratio q) => if q.den = 1 then (b, q.num) else (.power b (.ratio ⟨1, q.den⟩), q.num)
  | some _ => (f, 1)
  | none =>
    match e.splitCoefficient with
    | (.ratio q, tail) =>
      if q = .ofInt 1 then (f, 1)
      else if q.den = 1 then (.power b tail, q.num)
      else (.power b (ofFactors (withNumber (.ratio ⟨1, q.den⟩) tail.factors)), q.num)
    | _ => (f, 1)

/-- Sets the exponent of a base. -/
def setPower (base : Form) (n : Int) : List (Form × Int) → List (Form × Int)
  | [] => [(base, n)]
  | (b, m) :: rest => if b.same base then (b, n) :: rest else (b, m) :: setPower base n rest

/-- Multiplies a monomial by a factor. -/
def Monomial.times (m : Monomial) (f : Form) : Monomial :=
  match (if f.isClosed then f.approx else none) with
  | some v =>
    let (x, y) := v.floats
    { m with re := m.re * x - m.im * y, im := m.re * y + m.im * x }
  | none => { m with powers := setPower f.splitPower.1 f.splitPower.2 m.powers }

/-- A term as a monomial. -/
def monomial (t : Form) : Monomial :=
  let (c, rest) := t.splitCoefficient
  let x := ((c.form.approx.map Approx.floats).getD (1, 0)).1
  if rest.isInt 1 then ⟨x, 0, []⟩ else rest.factors.foldl Monomial.times ⟨x, 0, []⟩

/-- The exponent of a base in a monomial. -/
def Monomial.exponentOf (m : Monomial) (base : Form) : Int :=
  ((m.powers.find? fun p => p.1.same base).map (·.2)).getD 0

/-- Each form once. -/
def distinct : List Form → List Form
  | [] => []
  | f :: fs => f :: (distinct fs).filter fun g => !g.same f

/-- The order of two machine numbers by value. -/
def valueOrder (x y : Float) : Ordering := if x < y then .lt else if y < x then .gt else .eq

/-- The order of two monomials: by falling exponents of the bases, then by coefficient, real ones first. -/
def Monomial.order (bases : List Form) (m n : Monomial) : Ordering :=
  match bases with
  | b :: bs => (compare (n.exponentOf b) (m.exponentOf b)).then (Monomial.order bs m n)
  | [] =>
    (compare (m.im != 0).toNat (n.im != 0).toNat).then <|
      (valueOrder m.im n.im).then (valueOrder m.re n.re)

/-- Terms in the order of monomials, the bases being ordered by given keys. -/
def byMonomials (key : Form → Key) (ts : List Form) : List Form :=
  let all := ts.map fun t => (monomial t, t)
  let bases := byKeys key (distinct (all.flatMap fun m => m.1.powers.map (·.1)))
  (all.mergeSort fun a b => a.1.order bases b.1 != .gt).map (·.2)

/-- Whether a form is a number or a real constant. -/
def isRealConstant (f : Form) : Bool :=
  f.isNumber || f.same (.constant .e) || f.same (.constant .pi)

/-- Whether a form is a number above zero or a real constant. -/
def isPositiveConstant (f : Form) : Bool :=
  match f.number? with
  | some c => c.isPositive && c.isFinite
  | none => f.isRealConstant

/-- Whether a form is a finite number below zero times one other factor. -/
def isNegativeMultiple : Form → Bool
  | .product [a, b] =>
    let below (f : Form) : Bool := f.isNegativeNumber && !f.same (.constant .negativeInfinity)
    below a || (!a.isRealConstant && below b)
  | _ => false

/-- Terms in order.  A positive number stays before a single term that is a negative multiple. -/
def orderTerms (key : Form → Key) (ts : List Form) : List Form :=
  match ts with
  | [a, b] =>
    if a.isPositiveConstant && b.isNegativeMultiple then [a, b]
    else if !a.isRealConstant && b.isPositiveConstant && a.isNegativeMultiple then [b, a]
    else byMonomials key ts
  | ts => byMonomials key ts

/-! ## Keys of forms -/

/-- The key of a form of at most the given number of levels. -/
def keyUpTo : Nat → Form → Key
  | 0, _ => .text ""
  | levels + 1, f =>
    match f.number? with
    | some c => .number c
    | none =>
      let (c, rest) := f.splitCoefficient
      let (base, exponent) : Form × Form :=
        match rest with
        | .power (.constant .e) x => (.apply .exp x, .int 1)
        | .power b x => (b, x)
        | rest => (rest, .int 1)
      let parts : List Key :=
        match base with
        | .sum ts => (orderTerms (keyUpTo levels) ts).map (keyUpTo levels)
        | .product fs => (orderFactors (keyUpTo levels) fs).map (keyUpTo levels)
        | .power a b | .modulo a b | .interval a b => [keyUpTo levels a, keyUpTo levels b]
        | .unknown _ as | .matrix as => as.map (keyUpTo levels)
        | .apply _ a | .finiteSet a => [keyUpTo levels a]
        | atom => [.text atom.atomText]
      let (kind, place, name) := base.kindOf
      .node kind place name parts (keyUpTo levels exponent) c

/-- The key of a form. -/
def key (f : Form) : Key := keyUpTo (2 * f.size + 2) f

/-- Factors in the order in which they are read out. -/
def sortFactors (fs : List Form) : List Form := orderFactors key fs

/-- Terms in the order in which they are read out. -/
def sortTerms (ts : List Form) : List Form := orderTerms key ts

/-! ## Minus signs -/

mutual

/-- Whether a form is written with a minus sign in front: a negative number, a product that starts with one,
or a sum with more such terms than others.  Between a sum with as many of both kinds and its opposite the
keys decide. -/
def hasMinusSign : Form → Bool
  | .product (f :: fs) =>
    f.isNegativeNumber && !(ofFactors (oppositeFactors (f :: fs))).same (.product (f :: fs))
  | .sum ts =>
    let below := countMinusSigns ts
    if ts.length < 2 * below then true
    else if 2 * below < ts.length then false
    else (key (.sum ts)).order (key (.sum (opposites ts))) == .lt
  | f => f.isNegativeNumber

/-- The number of forms that are written with a minus sign in front. -/
def countMinusSigns : List Form → Nat
  | [] => 0
  | t :: ts => (if hasMinusSign t then 1 else 0) + countMinusSigns ts

end

end Form

end ExprCalculus
