import ExprCalculus.Form.Function
import ExprCalculus.Form.Power
import ExprCalculus.Form.Product
import ExprCalculus.Form.Sum

/-!
# Reduced forms

The rules for sums, products, powers and applications are carried out to a depth that grows with the forms
they are used on; what would lie deeper is left as it stands.  In logarithms to a base, powers of an integer base that
divide the argument come out as a number; what is left is a quotient of natural logarithms.
-/

namespace ExprCalculus.Form

/-- Carries out the rules to a depth. -/
def reducer : Nat → Reducer
  | 0 => .still
  | depth + 1 =>
    let inner := reducer depth
    { add := reducedSum inner
      multiply := reducedProduct inner
      raise := reducedPower inner
      apply := reducedApplication inner }

/-- The reducer for forms of a size.  A rule may be used once on each node, and a few times on what it makes. -/
def reducerFor (size : Nat) : Reducer := reducer (2 * size + 40)

/-- The reduced sum of forms. -/
def add (ts : List Form) : Form := (reducerFor (sizeAll ts)).add ts

/-- The reduced product of forms. -/
def multiply (fs : List Form) : Form := (reducerFor (sizeAll fs)).multiply fs

/-- The reduced power of forms. -/
def raise (b e : Form) : Form := (reducerFor (b.size + e.size)).raise b e

/-- The reduced application of a function. -/
def applyTo (fn : Fn) (a : Form) : Form := (reducerFor a.size).apply fn a

/-- The reduced form with the other sign. -/
def negate (f : Form) : Form := (reducerFor f.size).negate f

/-- The reduced difference of forms. -/
def subtract (a b : Form) : Form := (reducerFor (a.size + b.size)).subtract a b

/-- The reduced quotient of forms. -/
def divide (a b : Form) : Form := (reducerFor (a.size + b.size)).divide a b

/-! ## Logarithms to a base -/

/-- How often an integer of at least two divides another; none if that is not defined. -/
def integerMultiplicity? (b n : Int) : Option Int :=
  if b < 2 || n = 0 then none else some (Factor.multiplicity b.toNat n.natAbs)

/-- How often a ratio divides another. -/
def multiplicity? (b n : Ratio) : Option Int :=
  if b.den = 1 && n.den = 1 then integerMultiplicity? b.num n.num
  else if b.den = 1 then
    if n.num = 1 then (integerMultiplicity? b.num n.den).map (- ·)
    else
      match integerMultiplicity? b.num n.num, integerMultiplicity? b.num n.den with
      | some i, some j => some (i - j)
      | _, _ => none
  else if b.num = 1 then integerMultiplicity? b.den n.den
  else
    match integerMultiplicity? b.num n.num, integerMultiplicity? b.den n.den,
        integerMultiplicity? b.den n.num, integerMultiplicity? b.num n.den with
    | some i, some j, some k, some l => some (min i j - min k l)
    | _, _, _, _ => none

/-- The logarithm of a form to a base. -/
def logarithmTo (base arg : Form) : Form :=
  let quotient (a : Form) : Form := divide (applyTo .ln a) (applyTo .ln base)
  if base.isInt 1 then (if arg.isInt 1 then .undefined else .complexInfinity)
  else
    match base, arg with
    | .ratio b, .ratio n =>
      match multiplicity? b n with
      | some k =>
        if k = 0 then quotient arg
        else add [.int k, quotient (divide arg (raise base (.int k)))]
      | none => quotient arg
    | base, arg => if base.same (.constant .e) then applyTo .ln arg else quotient arg

end ExprCalculus.Form
