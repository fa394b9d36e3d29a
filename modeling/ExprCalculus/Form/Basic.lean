import ExprCalculus.Expr.Basic
import ExprCalculus.Form.Ratio

/-!
# Algebraic forms

In an algebraic form sums and products have any number of parts, and there are no differences, quotients or
square roots: a difference adds a multiple by minus one, a quotient multiplies by a power to minus one, and
a root is a power to a ratio.  A form is written with the names that computer algebra uses.
-/

namespace ExprCalculus

/-- The constants of algebraic forms. -/
inductive Constant where
  | e
  | pi
  | complexInfinity
  | infinity
  | negativeInfinity
  | imaginaryUnit
  | undefined
  deriving DecidableEq, Repr

/-- The name of a function in algebraic forms. -/
def Fn.formName : Fn → String
  | .exp => "exp"
  | .ln => "log"
  | .sqrt => "sqrt"
  | .sin => "sin"
  | .cos => "cos"
  | .tan => "tan"
  | .arcsin => "asin"
  | .arccos => "acos"
  | .arctan => "atan"
  | .abs => "Abs"
  | .ceil => "ceiling"
  | .floor => "floor"
  | .sgn => "sign"

/-- An algebraic form. -/
inductive Form where
  | ratio (q : Ratio)
  | float (x : Float)
  | constant (c : Constant)
  | symbol (name : String)
  | sum (terms : List Form)
  | product (factors : List Form)
  | power (base exponent : Form)
  | modulo (a b : Form)
  | apply (fn : Fn) (arg : Form)
  /-- a function that is known by its name alone -/
  | unknown (name : String) (args : List Form)
  | matrix (rows : List Form)
  | interval (lo hi : Form)
  | emptySet
  | finiteSet (member : Form)

namespace Form

instance : Inhabited Form := ⟨.emptySet⟩

/-- An integer. -/
abbrev int (n : Int) : Form := .ratio (.ofInt n)

/-- The unit of imaginary numbers. -/
abbrev imaginary : Form := .constant .imaginaryUnit

/-- What is not a number. -/
abbrev undefined : Form := .constant .undefined

/-- The infinity of complex numbers. -/
abbrev complexInfinity : Form := .constant .complexInfinity

/-- The form of a machine number: the infinities and what is not a number are constants, and there is one
zero. -/
def ofFloat (x : Float) : Form :=
  if x.isNaN then .undefined
  else if x.isInf then .constant (if x < 0 then .negativeInfinity else .infinity)
  else if x == 0 then .float 0.0
  else .float x

/-! ## Equality and size -/

mutual

/-- Whether two forms are the same.  A machine number is never the same as a ratio. -/
def same : Form → Form → Bool
  | .ratio p, .ratio q => p = q
  | .float x, .float y => x == y
  | .constant c, .constant d => c = d
  | .symbol x, .symbol y => x == y
  | .sum as, .sum bs => sameAll as bs
  | .product as, .product bs => sameAll as bs
  | .power a b, .power c d => same a c && same b d
  | .modulo a b, .modulo c d => same a c && same b d
  | .apply f a, .apply g b => f = g && same a b
  | .unknown f as, .unknown g bs => f == g && sameAll as bs
  | .matrix as, .matrix bs => sameAll as bs
  | .interval a b, .interval c d => same a c && same b d
  | .emptySet, .emptySet => true
  | .finiteSet a, .finiteSet b => same a b
  | _, _ => false

/-- Whether two lists of forms are the same. -/
def sameAll : List Form → List Form → Bool
  | [], [] => true
  | a :: as, b :: bs => same a b && sameAll as bs
  | _, _ => false

end

/-- Whether a form is the given integer. -/
def isInt (n : Int) : Form → Bool
  | .ratio q => q = .ofInt n
  | _ => false

mutual

/-- The number of nodes of a form. -/
def size : Form → Nat
  | .sum as | .product as | .unknown _ as | .matrix as => sizeAll as + 1
  | .power a b | .modulo a b | .interval a b => size a + size b + 1
  | .apply _ a | .finiteSet a => size a + 1
  | _ => 1

/-- The number of nodes of several forms. -/
def sizeAll : List Form → Nat
  | [] => 0
  | a :: as => size a + sizeAll as

end

/-! ## Parts -/

mutual

/-- Whether a form holds neither a symbol nor an unknown function. -/
def isClosed : Form → Bool
  | .ratio _ | .float _ | .constant _ => true
  | .sum as | .product as => allClosed as
  | .power a b | .modulo a b => isClosed a && isClosed b
  | .apply _ a => isClosed a
  | _ => false

/-- Whether several forms hold neither a symbol nor an unknown function. -/
def allClosed : List Form → Bool
  | [] => true
  | a :: as => isClosed a && allClosed as

end

/-- The factors of a form. -/
def factors : Form → List Form
  | .product fs => fs
  | f => [f]

/-- The terms of a form. -/
def terms : Form → List Form
  | .sum ts => ts
  | f => [f]

/-- A product of factors; a single factor stands alone. -/
def ofFactors : List Form → Form
  | [] => .int 1
  | [f] => f
  | fs => .product fs

/-- A sum of terms; a single term stands alone. -/
def ofTerms : List Form → Form
  | [] => .int 0
  | [t] => t
  | ts => .sum ts

end Form

end ExprCalculus
