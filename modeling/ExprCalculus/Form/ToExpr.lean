import ExprCalculus.Form.Display
import ExprCalculus.Form.Reduce

/-!
# Expressions of forms

A sum becomes sums and differences of its terms in order, a product a quotient of its factors by those with
negative exponents, and a negative coefficient a negation.  What expressions cannot say is refused.
-/

namespace ExprCalculus

/-- Why a form is no expression. -/
inductive FormError where
  | complexInfinity
  | unsupported (kind text : String)
  /-- a form of more levels than allowed for its size -/
  | tooDeep

/-- The message of an error. -/
def FormError.message : FormError → String
  | .complexInfinity => "can not convert complex infinity"
  | .unsupported kind text => "can not convert SymPy " ++ kind ++ " " ++ text
  | .tooDeep => "maximum depth of form exceeded"

namespace Form

/-- The refusal of a form. -/
def refused (kind : String) (f : Form) : Except FormError Expr := .error (.unsupported kind f.text)

/-- The expression of a constant. -/
def ofConstant (c : Constant) : Except FormError Expr :=
  match c with
  | .e => .ok (.number Num.euler)
  | .pi => .ok (.number Num.pi)
  | .complexInfinity => .error .complexInfinity
  | c => refused c.kindName (.constant c)

/-- The expression of a ratio. -/
def ofRatio (q : Ratio) : Expr :=
  if q.den = 1 then .int q.num
  else if q.isNegative then .neg (.divide (.int (-q.num)) (.int q.den))
  else .divide (.int q.num) (.int q.den)

/-- The numerator and the denominator of a form, as lists of factors. -/
abbrev Stroke := List Form × List Form

/-- Numerator and denominator of a power whose exponent has an unknown sign: below the stroke if the exponent
is written with a minus sign. -/
def strokeBySign (f b e : Form) : Stroke :=
  let above (x : Form) : List Form := if x.isInt 1 then [] else [x]
  let lower := e.hasMinusSign
  let exponent := if lower then negate e else e
  match f, b with
  | .apply .exp _, _ => if lower then ([], [applyTo .exp exponent]) else ([f], [])
  | _, .ratio q =>
    let top := raise (.int q.num) exponent
    let bottom := raise (.int q.den) exponent
    if lower then (above bottom, [top]) else (above top, [bottom])
  | _, b => if lower then ([], [raise b exponent]) else (above (raise b exponent), [])

/-- The parts of a factor above and below the stroke. -/
def strokeOf (f : Form) : Stroke :=
  let ofPower (b e : Form) : Stroke :=
    let known := e.facts
    if known.isNegative && known.finite = some true then
      ([], [if e.isInt (-1) then b else raise b (negate e)])
    else if known.isPositive && known.finite = some true then ([f], [])
    else
      match e with
      | .product _ => strokeBySign f b e
      | _ => ([f], [])
  match f with
  | .power .. | .apply .exp _ => ofPower f.baseExponent.1 f.baseExponent.2
  | .ratio q =>
    if q.den = 1 then ([f], []) else ((if q.num = 1 then [] else [.int q.num]), [.int q.den])
  | f => ([f], [])

/-- Joins two results. -/
def both (a b : Except FormError Expr) (f : Expr → Expr → Expr) : Except FormError Expr :=
  match a with
  | .error e => .error e
  | .ok x => b.map (f x)

mutual

/-- The expression of a form of at most the given number of levels. -/
def toExprUpTo : Nat → Form → Except FormError Expr
  | 0, _ => .error .tooDeep
  | levels + 1, f =>
    match f with
    | .ratio q => .ok (ofRatio q)
    | .float x => .ok (.number (.float x))
    | .constant c => ofConstant c
    | .symbol x => .ok (.var x)
    | .sum ts =>
      match sortTerms ts with
      | [] => .ok (.int 0)
      | t :: rest =>
        match toExprUpTo levels t with
        | .error e => .error e
        | .ok first => addTerms levels first rest
    | .product fs =>
      if f.hasMinusSign then (toExprUpTo levels (negate f)).map .neg
      else
        let strokes := fs.map strokeOf
        let denominator := multiply (strokes.flatMap (·.2))
        if denominator.isInt 1 then
          match sortFactors fs with
          | [] => .ok (.int 1)
          | g :: rest =>
            match toExprUpTo levels g with
            | .error e => .error e
            | .ok first => multiplyFactors levels first rest
        else
          both (toExprUpTo levels (multiply (strokes.flatMap (·.1)))) (toExprUpTo levels denominator)
            .divide
    | .power b e =>
      if e.isNegativeNumber && e.facts.finite = some true then
        (toExprUpTo levels (raise b (negate e))).map (.divide (.int 1))
      else
        match e with
        | .ratio ⟨1, 2⟩ => (toExprUpTo levels b).map (.applyTo .sqrt)
        | .ratio ⟨1, n + 3⟩ => (toExprUpTo levels b).map fun x => .root (n + 3) x.inArgument
        | e => both (toExprUpTo levels b) (toExprUpTo levels e) .power
    | .modulo a b => both (toExprUpTo levels a) (toExprUpTo levels b) .modulo
    | .apply fn a => (toExprUpTo levels a).map (.applyTo fn)
    | .unknown name _ => refused name f
    | .matrix _ => refused "MutableDenseMatrix" f
    | .interval .. => refused "Interval" f
    | .emptySet => refused "EmptySet" f
    | .finiteSet _ => refused "FiniteSet" f

/-- Adds further terms to an expression. -/
def addTerms : Nat → Expr → List Form → Except FormError Expr
  | 0, _, _ => .error .tooDeep
  | _, total, [] => .ok total
  | levels + 1, total, t :: rest =>
    if t.hasMinusSign then
      match toExprUpTo levels (negate t) with
      | .error e => .error e
      | .ok x => addTerms levels (.minus total x) rest
    else
      match toExprUpTo levels t with
      | .error e => .error e
      | .ok x => addTerms levels (.plus total x) rest

/-- Multiplies an expression by further factors. -/
def multiplyFactors : Nat → Expr → List Form → Except FormError Expr
  | 0, _, _ => .error .tooDeep
  | _, total, [] => .ok total
  | levels + 1, total, f :: rest =>
    match toExprUpTo levels f with
    | .error e => .error e
    | .ok x => multiplyFactors levels (.times total x) rest

end

/-- The expression of a form.  Each level of the form takes a few steps, and so does each part. -/
def toExpr (f : Form) : Except FormError Expr := toExprUpTo (8 * f.size + 16) f

end Form

end ExprCalculus
