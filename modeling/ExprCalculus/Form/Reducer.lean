import ExprCalculus.Form.Facts
import ExprCalculus.Form.Order

/-!
# Ways to make forms of parts

A `Reducer` says how sums, products, powers and applications are made.  The rules of reduction are stated for
a reducer that is used on the parts that arise on the way, so that one that carries them out to any depth is
built level by level.
-/

namespace ExprCalculus.Form

/-- How forms are made of parts. -/
structure Reducer where
  add : List Form → Form
  multiply : List Form → Form
  raise : Form → Form → Form
  apply : Fn → Form → Form

namespace Reducer

/-- Leaves every form as it stands. -/
def still : Reducer where
  add := ofTerms
  multiply := ofFactors
  raise := .power
  apply := .apply

/-- The form with the other sign; over a sum the sign is distributed. -/
def negate (r : Reducer) (f : Form) : Form :=
  match f with
  | .sum _ => r.multiply [.int (-1), f]
  | f => f.opposite

/-- The difference of two forms. -/
def subtract (r : Reducer) (a b : Form) : Form := r.add [a, r.negate b]

/-- The quotient of two forms. -/
def divide (r : Reducer) (a b : Form) : Form :=
  match a.number?, b.number? with
  | some c, some d =>
    match c.div? d with
    | some q => q.form
    | none => r.multiply [a, r.raise b (.int (-1))]
  | _, _ => r.multiply [a, r.raise b (.int (-1))]

/-- A number times a form, a product taking the number in. -/
def scale (r : Reducer) (c : Coefficient) (f : Form) : Form :=
  if f.isInt 1 then c.form
  else if c.isOne then f
  else if c.isMinusOne then r.negate f
  else
    match f with
    | .sum _ => .product [c.form, f]
    | .product fs =>
      match withNumber c fs with
      | g :: gs => if g.isInt 1 then ofFactors gs else ofFactors (g :: gs)
      | [] => c.form
    | f =>
      let m := r.multiply [c.form, f]
      if m.isNumber && !f.isNumber then .product [c.form, f] else m

end Reducer

/-! ## Constants in front -/

/-- The product of two forms that are numbers or the complex infinity. -/
def multiplyConstants (a b : Form) : Form :=
  match a.number?, b.number? with
  | some c, some d => (c.mul d).form
  | some c, none | none, some c =>
    match c with
    | .undefined => .undefined
    | c => if c.isZero then .undefined else .complexInfinity
  | none, none => .complexInfinity

/-- Whether a form is a number or the complex infinity. -/
def isConstant (f : Form) : Bool := f.isNumber || f.same .complexInfinity

end ExprCalculus.Form
