import ExprCalculus.Form.Approx

/-!
# What is known of the value of a form

`Facts` lists the kinds of values a form may have: below, at or above zero, imaginary, or neither real nor
imaginary.  Of a symbol nothing is known.  What is known of a sum, product, power or function follows from
what is known of its parts, and the sign of a closed sum or function from its approximate value.
-/

namespace ExprCalculus

/-- The kinds of values a form may have, and whether it is finite and an integer where that is known.  An
infinity of either sign counts as real. -/
structure Facts where
  negative : Bool
  zero : Bool
  positive : Bool
  imaginary : Bool
  complex : Bool
  finite : Option Bool
  integer : Option Bool
  deriving DecidableEq, Repr

namespace Facts

/-- Nothing is known. -/
def unknown : Facts := ⟨true, true, true, true, true, none, none⟩

/-- A real number of unknown sign. -/
def anyReal : Facts := ⟨true, true, true, false, false, none, none⟩

/-- A number that is not real. -/
def notReal : Facts := ⟨false, false, false, true, true, none, some false⟩

/-- A real number of a known sign. -/
def ofSign (s : Int) : Facts := ⟨s < 0, s = 0, 0 < s, false, false, none, none⟩

/-- Whether the value is real. -/
def isReal (f : Facts) : Bool := !f.imaginary && !f.complex

/-- Whether the value is known not to be real. -/
def isNotReal (f : Facts) : Bool := !f.negative && !f.zero && !f.positive

/-- Whether the value is below zero. -/
def isNegative (f : Facts) : Bool := f.isReal && !f.zero && !f.positive

/-- Whether the value is above zero. -/
def isPositive (f : Facts) : Bool := f.isReal && !f.zero && !f.negative

/-- Whether the value is zero. -/
def isZero (f : Facts) : Bool := f.isReal && !f.negative && !f.positive

/-- Whether the value is real and not below zero. -/
def isNonnegative (f : Facts) : Bool := f.isReal && !f.negative

/-- Whether the value is real and not above zero. -/
def isNonpositive (f : Facts) : Bool := f.isReal && !f.positive

/-- Whether the value is imaginary. -/
def isImaginary (f : Facts) : Bool := f.isNotReal && !f.complex

/-- Whether the value is known to be real or known not to be. -/
def decidesReal (f : Facts) : Bool := f.isReal || f.isNotReal

/-- Whether both values are what is asked; none if that is not known of one of them. -/
def both : Option Bool → Option Bool → Option Bool
  | some true, some true => some true
  | some false, some _ | some _, some false => some false
  | _, _ => none

/-! ## Arithmetic -/

/-- What is known of a sum.  Two values that are not real may add up to anything. -/
def add (a b : Facts) : Facts :=
  let finite := both a.finite b.finite
  let integer := if a.integer = some true && b.integer = some true then some true else none
  if a.isReal && b.isReal then
    { negative := a.negative || b.negative
      zero := (a.zero && b.zero) || (a.negative && b.positive) || (a.positive && b.negative)
      positive := a.positive || b.positive
      imaginary := false
      complex := false
      finite
      integer }
  else if a.isReal && b.isNotReal || a.isNotReal && b.isReal then { notReal with finite }
  else { unknown with finite }

/-- What is known of a product.  Zero times what may be infinite may be anything. -/
def mul (a b : Facts) : Facts :=
  let finite := both a.finite b.finite
  let integer := if a.integer = some true && b.integer = some true then some true else none
  if (a.zero && b.finite ≠ some true) || (b.zero && a.finite ≠ some true) then { unknown with finite }
  else
    let mixed := a.complex && b.complex
    let size (f : Facts) : Bool := f.negative || f.positive
    { negative := (a.negative && b.positive) || (a.positive && b.negative) ||
        (a.imaginary && b.imaginary) || mixed
      zero := a.zero || b.zero
      positive := (a.negative && b.negative) || (a.positive && b.positive) ||
        (a.imaginary && b.imaginary) || mixed
      imaginary := (a.imaginary && size b) || (size a && b.imaginary) || mixed
      complex := (a.complex && (size b || b.imaginary)) || ((size a || a.imaginary) && b.complex) || mixed
      finite
      integer }

/-- What is known of a power to an integer that is odd or even. -/
def powInt (a : Facts) (odd : Bool) : Facts :=
  if a.isImaginary then
    if odd then { notReal with complex := false } else { anyReal with zero := false }
  else if odd then { a with finite := none, integer := none }
  else ⟨false, a.zero, a.negative || a.positive, false, false, none, none⟩

/-- What is known of a power.  A negative number to a ratio that is no integer is not real. -/
def pow (a b : Facts) (exponent : Option Ratio) : Facts :=
  let finite := if (!a.zero || b.isNonnegative) then both a.finite b.finite else none
  let integer := if a.integer = some true && b.integer = some true && b.isNonnegative then some true else none
  let odd : Option Bool := (exponent.bind Ratio.integer?).map fun n => n % 2 == 1
  let known :=
    if a.isPositive && b.isReal then ofSign 1
    else if a.isNonnegative && b.isNonnegative then { ofSign 1 with zero := a.zero }
    else
      match odd with
      | some odd =>
        if (a.isReal && (!a.zero || b.isNonnegative)) || a.isImaginary then a.powInt odd else unknown
      | none =>
        if a.isReal && b.integer = some true && (!a.zero || b.isNonnegative) then anyReal
        else if a.isNegative then
          match exponent with
          | some q => if q.den = 2 then { notReal with complex := false } else notReal
          | none => unknown
        else unknown
  { known with finite, integer }

/-! ## Functions -/

/-- What is known of a function's value, apart from its size. -/
def apply (fn : Fn) (a : Facts) : Facts :=
  let sameFinite := if a.finite = some true then some true else none
  match fn with
  | .exp => if a.isReal then { ofSign 1 with finite := sameFinite } else { unknown with finite := sameFinite }
  | .ln =>
    if a.isPositive then { anyReal with finite := sameFinite }
    else if !a.positive then { notReal with finite := if a.zero then none else sameFinite }
    else unknown
  | .sqrt => a.pow (ofSign 1) (some ⟨1, 2⟩)
  | .sin | .cos => if a.isReal then { anyReal with finite := some true } else unknown
  | .tan => if a.isReal then anyReal else unknown
  | .arcsin | .arccos => unknown
  | .arctan =>
    if a.isReal then { a with finite := some true, integer := none } else unknown
  | .abs => ⟨false, a.zero, !a.isZero, false, false, a.finite, a.integer⟩
  | .ceil =>
    if a.isReal then { a with zero := a.zero || a.negative, integer := some true } else unknown
  | .floor =>
    if a.isReal then { a with zero := a.zero || a.positive, integer := some true } else unknown
  | .sgn =>
    if a.isReal then { a with finite := some true, integer := some true }
    else { unknown with finite := some true }

/-- What is known of a remainder: it has the sign of the divisor. -/
def modulo (a b : Facts) : Facts :=
  let integer := if a.integer = some true && b.integer = some true && !b.zero then some true else none
  if b.isPositive then { ofSign 1 with zero := true, integer }
  else if b.isNegative then { ofSign (-1) with zero := true, integer }
  else if integer = some true then { anyReal with integer }
  else unknown

/-- What is known of a number. -/
def ofNumber : Coefficient → Facts
  | .ratio q => { ofSign q.num.sign with finite := some true, integer := some (q.den = 1) }
  | .float x =>
    let integer := if (Binary64.integer? x).isSome then (if x == 0 then some true else none) else some false
    ⟨x < 0, x == 0, 0 < x, false, false, some true, integer⟩
  | .infinity => { ofSign 1 with finite := some false, integer := some false }
  | .negativeInfinity => { ofSign (-1) with finite := some false, integer := some false }
  | .undefined => unknown

/-- What is known of a constant. -/
def ofConstant : Constant → Facts
  | .e | .pi => { ofSign 1 with finite := some true, integer := some false }
  | .complexInfinity => { notReal with imaginary := false, finite := some false }
  | .infinity => ofNumber .infinity
  | .negativeInfinity => ofNumber .negativeInfinity
  | .imaginaryUnit => { notReal with complex := false, finite := some true }
  | .undefined => unknown

/-- Adds what an approximate value tells of the sign of what may be real. -/
def refine (f : Facts) (value : Option Approx) : Facts :=
  if f.isNotReal then f
  else
    match value with
    | none => f
    | some v =>
      match v.sign? with
      | some s => { ofSign s with finite := f.finite, integer := f.integer }
      | none => if v.isReal then f else { f with negative := false, positive := false }

end Facts

namespace Form

mutual

/-- What is known of the value of a form. -/
def facts : Form → Facts
  | .ratio q => Facts.ofNumber (.ratio q)
  | .float x => Facts.ofNumber (.float x)
  | .constant c => Facts.ofConstant c
  | .sum ts =>
    let known := factsSum ts
    if allClosed ts then
      let known :=
        if known.isReal then { Facts.anyReal with finite := known.finite, integer := known.integer }
        else known
      known.refine (approxSum ts)
    else known
  | .product fs => factsProduct fs
  | .power a b =>
    match b with
    | .ratio q => (facts a).pow (Facts.ofNumber (.ratio q)) (some q)
    | b => (facts a).pow (facts b) none
  | .modulo a b => (facts a).modulo (facts b)
  | .apply fn a =>
    let known := (facts a).apply fn
    match fn with
    | .abs => known
    | .arcsin | .arccos =>
      if isClosed a then
        match approx a with
        | some v =>
          if v.isReal then
            match v.apply fn with
            | some w => Facts.anyReal.refine (some w)
            | none => Facts.notReal
          else known
        | none => known
      else known
    | fn => if isClosed a then known.refine ((approx a).bind (Approx.apply fn)) else known
  | _ => Facts.unknown

/-- What is known of a sum of forms. -/
def factsSum : List Form → Facts
  | [] => Facts.ofNumber (.int 0)
  | [t] => facts t
  | t :: ts => (facts t).add (factsSum ts)

/-- What is known of a product of forms. -/
def factsProduct : List Form → Facts
  | [] => Facts.ofNumber (.int 1)
  | [f] => facts f
  | f :: fs => (facts f).mul (factsProduct fs)

end

/-- Whether the value of a form is a real number that can be compared with others. -/
def isComparable (f : Form) : Bool :=
  f.isClosed && !f.facts.isNotReal &&
    match f.approx with
    | some v => v.isReal
    | none => false

end Form

end ExprCalculus
