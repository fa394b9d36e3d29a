import ExprCalculus.Expr.Display
import ExprCalculus.Expr.Expansion

/-!
# Derivatives

`derive v e` is the derivative of `e` by the variable `v`, left unsimplified.  A logarithm, a root, a tangent
and a power whose base and exponent both vary are differentiated in their expanded form.  A power of which
one part neither holds the variable nor hides a call follows the shorter rule for the other part.  The jumps
of rounding functions are ignored.

An interval has no derivative and neither has a call, whose body is not known; where two parts of a tree
fail, the order in which a rule looks at its parts decides.
-/

namespace ExprCalculus

/-- Why a tree has no derivative. -/
inductive DeriveError where
  | interval (tree : Expr)
  | unresolvedCall (name : String)

/-- The message of an error. -/
def DeriveError.message : DeriveError → String
  | .interval e => "can not differentiate interval literal " ++ e.text
  | .unresolvedCall name => "can not differentiate call to unresolved function " ++ name ++ "()"

namespace Expr

/-- Combines two derivatives; the first error wins. -/
def both (x y : Except DeriveError Expr) (f : Expr → Expr → Expr) : Except DeriveError Expr :=
  match x with
  | .error e => .error e
  | .ok a =>
    match y with
    | .error e => .error e
    | .ok b => .ok (f a b)

/-- Whether the derivative by the variable is sure to vanish: the variable is not free in the tree and no
call hides one. -/
def isFreeOf (v : String) (e : Expr) : Bool := !e.freeVars.contains v && !e.hasCall

/-! ## Rules -/

/-- The product rule. -/
def productRule (a b da db : Expr) : Expr := plus (times a db) (times da b)

/-- The quotient rule. -/
def quotientRule (a b da db : Expr) : Expr :=
  divide (minus (times da b) (times a db)) (times b b)

/-- The rule for a power with a constant exponent. -/
def powerRule (base exponent dbase : Expr) : Expr :=
  let lower :=
    match exponent with
    | .number n => .number n.pred
    | e => minus e (int 1)
  times (times exponent (power base lower)) dbase

/-- The rule for a power with a constant base. -/
def exponentialRule (base exponent dexponent : Expr) : Expr :=
  times (times (power base exponent) (applyTo .ln base)) dexponent

/-- The derivative of a natural logarithm, from its argument and the argument's derivative. -/
def lnRule (arg darg : Expr) : Expr := divide darg arg.argumentValue

/-- The rule for a power of which both parts vary. -/
def generalPowerRule (base exponent dbase dexponent : Expr) : Expr :=
  times (powerAsExponential base exponent)
    (productRule exponent (applyTo .ln base) dexponent (lnRule base.inArgument dbase))

/-- The derivative of a sine. -/
def sinRule (arg darg : Expr) : Expr := times (applyTo .cos arg.argumentValue) darg

/-- The derivative of a cosine. -/
def cosRule (arg darg : Expr) : Expr := times (neg (applyTo .sin arg.argumentValue)) darg

/-- The derivative of a tangent. -/
def tanRule (arg darg : Expr) : Expr :=
  let a := arg.argumentValue.inArgument
  quotientRule (.apply .sin a) (.apply .cos a) (sinRule a darg) (cosRule a darg)

/-- The derivative of a logarithm to a base. -/
def logRule (base arg dbase darg : Expr) : Expr :=
  let a := arg.argumentValue.inArgument
  let b := base.argumentValue.inArgument
  quotientRule (.apply .ln a) (.apply .ln b) (lnRule a darg) (lnRule b dbase)

/-- The derivative of a root. -/
def rootRule (index : Nat) (arg darg : Expr) : Expr :=
  powerRule arg.argumentValue (divide (int 1) (int index)) darg

/-- The square root of one less the square, which divides the derivatives of the inverse sine and cosine. -/
def circleRoot (arg : Expr) : Expr :=
  applyTo .sqrt (minus (int 1) (power arg.argumentValue (int 2)))

/-- The derivative of a default function, from its argument and the argument's derivative. -/
def functionRule (fn : Fn) (arg darg : Expr) : Expr :=
  match fn with
  | .exp => times (.apply .exp arg) darg
  | .ln => lnRule arg darg
  | .sqrt => rootRule 2 arg darg
  | .sin => sinRule arg darg
  | .cos => cosRule arg darg
  | .tan => tanRule arg darg
  | .arcsin => times (divide (int 1) (circleRoot arg)) darg
  | .arccos => times (divide (neg (int 1)) (circleRoot arg)) darg
  | .arctan => times (divide (int 1) (plus (int 1) (power arg.argumentValue (int 2)))) darg
  | .abs => times (applyTo .sgn arg.argumentValue) darg
  | .ceil | .floor | .sgn => int 0

/-- Whether a function is constant between its jumps, so that its argument is not looked at. -/
def Fn.isStep : Fn → Bool
  | .ceil | .floor | .sgn => true
  | _ => false

/-- The derivative of an outer function as a function, named after it where it lost that shape. -/
def derivedFunction (outer d : Expr) : Expr :=
  if d.isFunction then d else .custom ("d" ++ outer.functionName) outer.args d

/-! ## The derivative -/

mutual

/-- The derivative by a variable. -/
def derive (v : String) : Expr → Except DeriveError Expr
  | .number _ => .ok (int 0)
  | .var x => .ok (int (if v = x then 1 else 0))
  | .fixed e => derive v e
  | .vector es =>
    match deriveAll v es with
    | .error e => .error e
    | .ok ds => .ok (.vector ds)
  | .interval a b => .error (.interval (.interval a b))
  | .binary op a b =>
    match op with
    | .plus => both (derive v a) (derive v b) plus
    | .minus => both (derive v a) (derive v b) minus
    | .times => both (derive v b) (derive v a) fun db da => productRule a b da db
    | .divide => both (derive v a) (derive v b) (quotientRule a b)
    | .modulo =>
      both (derive v a) (derive v b) fun da db => minus da (times (applyTo .floor (divide a b)) db)
    | .power =>
      if isFreeOf v b then (derive v a).map (powerRule a b)
      else if isFreeOf v a then (derive v b).map (exponentialRule a b)
      else both (derive v a) (derive v b) (generalPowerRule a b)
  | .neg a => (derive v a).map .neg
  | .apply fn a =>
    if Fn.isStep fn then .ok (int 0) else (derive v a).map (functionRule fn a)
  | .log base a => both (derive v a) (derive v base) fun da dbase => logRule base a dbase da
  | .root n a => (derive v a).map (rootRule n a)
  | .custom name params body => (derive v body).map (.custom name params)
  | .compose f g =>
    both (derive v g) (derive v f) fun dg df => times (.compose f (derivedFunction g dg)) df
  | .call name => .error (.unresolvedCall name)

/-- The derivatives of several trees. -/
def deriveAll (v : String) : List Expr → Except DeriveError (List Expr)
  | [] => .ok []
  | e :: es =>
    match derive v e with
    | .error x => .error x
    | .ok d =>
      match deriveAll v es with
      | .error x => .error x
      | .ok ds => .ok (d :: ds)

end

end Expr

end ExprCalculus
