import ExprCalculus.Number.Basic

/-!
# Expression trees

An expression is built from number literals, variables, vectors, intervals, the six binary operations,
negation and functions.  A function is one of the default functions of one argument, a logarithm to a
base, a root, a custom function with named parameters and a body, a composition, or a call by name.

The argument of a default function, like a parameter of a custom function, is either a variable, which
names a parameter, or a fixed argument.  A fixed argument stands in its place as it is: only a variable
that is not to name a parameter, or what is itself marked as fixed, needs the mark `Expr.fixed` there.
`Expr.inArgument` gives an expression the form it has as an argument, `Expr.argumentValue` undoes it.
-/

namespace ExprCalculus

/-- The default functions of one argument. -/
inductive Fn where
  | exp
  | ln
  | sqrt
  | sin
  | cos
  | tan
  | arcsin
  | arccos
  | arctan
  | abs
  | ceil
  | floor
  | sgn
  deriving DecidableEq, Repr

/-- The name a function is written with. -/
def Fn.name : Fn → String
  | .exp => "exp"
  | .ln => "ln"
  | .sqrt => "sqrt"
  | .sin => "sin"
  | .cos => "cos"
  | .tan => "tan"
  | .arcsin => "arcsin"
  | .arccos => "arccos"
  | .arctan => "arctan"
  | .abs => "abs"
  | .ceil => "ceil"
  | .floor => "floor"
  | .sgn => "sgn"

/-- The binary operations. -/
inductive BinOp where
  | plus
  | minus
  | times
  | divide
  | power
  | modulo
  deriving DecidableEq, Repr

/-- The sign between the operands. -/
def BinOp.symbol : BinOp → String
  | .plus => "+"
  | .minus => "-"
  | .times => "*"
  | .divide => "/"
  | .power => "^"
  | .modulo => "%"

/-- The name of an operation in messages. -/
def BinOp.label : BinOp → String
  | .plus => "Plus"
  | .minus => "Minus"
  | .times => "Times"
  | .divide => "Divide"
  | .power => "Power"
  | .modulo => "Modulo"

/-- An expression tree. -/
inductive Expr where
  | number (value : Num)
  | var (name : String)
  /-- an expression that stands where a parameter is expected -/
  | fixed (value : Expr)
  | vector (elements : List Expr)
  | interval (lo hi : Expr)
  | binary (op : BinOp) (first second : Expr)
  | neg (operand : Expr)
  | apply (fn : Fn) (arg : Expr)
  | log (base arg : Expr)
  | root (index : Nat) (arg : Expr)
  | custom (name : String) (params : List Expr) (body : Expr)
  /-- the outer function applied to the value of the inner one -/
  | compose (inner outer : Expr)
  | call (name : String)

namespace Expr

instance : Inhabited Expr := ⟨.number (.int 0)⟩

/-- An integer literal. -/
abbrev int (n : Int) : Expr := .number (.int n)

/-- Sum. -/
abbrev plus (a b : Expr) : Expr := .binary .plus a b

/-- Difference. -/
abbrev minus (a b : Expr) : Expr := .binary .minus a b

/-- Product. -/
abbrev times (a b : Expr) : Expr := .binary .times a b

/-- Quotient. -/
abbrev divide (a b : Expr) : Expr := .binary .divide a b

/-- Power. -/
abbrev power (a b : Expr) : Expr := .binary .power a b

/-- Remainder. -/
abbrev modulo (a b : Expr) : Expr := .binary .modulo a b

/-- Whether the tree is a literal of this integer value. -/
def isValue (e : Expr) (n : Int) : Bool :=
  match e with
  | .number v => v.isValue n
  | _ => false

/-! ## Arguments -/

/-- The form an expression takes as an argument: the mark of a fixed argument stays only on a variable
and on what is itself marked. -/
def inArgument : Expr → Expr
  | .fixed (.var x) => .fixed (.var x)
  | .fixed (.fixed e) => .fixed (.fixed e)
  | .fixed e => e
  | e => e

/-- The expression an argument stands for. -/
def argumentValue : Expr → Expr
  | .fixed e => e
  | e => e

/-- Whether an argument names a parameter. -/
def parameterName? : Expr → Option String
  | .var x => some x
  | _ => none

/-- A default function applied to an expression. -/
def applyTo (fn : Fn) (e : Expr) : Expr := .apply fn e.inArgument

/-! ## Functions -/

/-- Whether the tree is a function, which can be composed and bound to a name. -/
def isFunction : Expr → Bool
  | .apply .. | .log .. | .root .. | .custom .. | .compose .. | .call _ => true
  | _ => false

/-- The name of a function. -/
def functionName : Expr → String
  | .apply fn _ => fn.name
  | .log .. => "log"
  | .root .. => "nrt"
  | .custom name _ _ => name
  | .compose f g => "comp(" ++ f.functionName ++ "," ++ g.functionName ++ ")"
  | .call name => name
  | _ => ""

/-- The parameters and fixed arguments of a function; those of a composition are the inner function's. -/
def args : Expr → List Expr
  | .apply _ a => [a]
  | .log base a => [base, a]
  | .root _ a => [a]
  | .custom _ params _ => params
  | .compose f _ => f.args
  | _ => []

/-- What the tree is called in messages: a function's name, otherwise the kind of the tree. -/
def label : Expr → String
  | .number _ => "Number"
  | .var _ => "Variable"
  | .fixed _ => "BoundVariable"
  | .vector _ => "Vector"
  | .interval .. => "IntervalLiteral"
  | .binary op _ _ => op.label
  | .neg _ => "UnaryMinus"
  | e => e.functionName

/-- The direct parts of a tree, arguments and parameters included. -/
def children : Expr → List Expr
  | .number _ | .var _ | .call _ => []
  | .fixed e => [e]
  | .vector es => es
  | .interval a b | .binary _ a b | .log a b | .compose a b => [a, b]
  | .neg a | .apply _ a | .root _ a => [a]
  | .custom _ params body => params ++ [body]

/-! ## Names and constants -/

mutual

/-- The names that need a binding before the tree can be evaluated.  Those of a composition are the inner
function's; a call counts none, since its body is unknown. -/
def freeVars : Expr → List String
  | .number _ | .call _ => []
  | .var x => [x]
  | .fixed e => freeVars e
  | .vector es => freeVarsOf es
  | .interval a b | .binary _ a b | .log a b => freeVars a ++ freeVars b
  | .neg a | .apply _ a | .root _ a => freeVars a
  | .custom _ params body => freeVarsOf params ++ freeVars body
  | .compose f _ => freeVars f

/-- The free names of several trees. -/
def freeVarsOf : List Expr → List String
  | [] => []
  | e :: es => freeVars e ++ freeVarsOf es

end

mutual

/-- Whether a call by name occurs in the tree. -/
def hasCall : Expr → Bool
  | .number _ | .var _ => false
  | .call _ => true
  | .fixed e => hasCall e
  | .vector es => anyHasCall es
  | .interval a b | .binary _ a b | .log a b | .compose a b => hasCall a || hasCall b
  | .neg a | .apply _ a | .root _ a => hasCall a
  | .custom _ params body => anyHasCall params || hasCall body

/-- Whether a call occurs in one of the trees. -/
def anyHasCall : List Expr → Bool
  | [] => false
  | e :: es => hasCall e || anyHasCall es

end

mutual

/-- Whether the tree holds neither a variable nor a call. -/
def isConstant : Expr → Bool
  | .number _ => true
  | .var _ | .call _ => false
  | .fixed e => isConstant e
  | .vector es => allConstant es
  | .interval a b | .binary _ a b | .log a b | .compose a b => isConstant a && isConstant b
  | .neg a | .apply _ a | .root _ a => isConstant a
  | .custom _ params body => allConstant params && isConstant body

/-- Whether all the trees are constant. -/
def allConstant : List Expr → Bool
  | [] => true
  | e :: es => isConstant e && allConstant es

end

/-! ## Comparison -/

mutual

/-- Whether two trees have the same shape and names, their literals being compared by `same`. -/
def sameBy (same : Num → Num → Bool) : Expr → Expr → Bool
  | .number a, .number b => same a b
  | .var a, .var b => a == b
  | .fixed a, .fixed b => sameBy same a b
  | .vector as, .vector bs => allSameBy same as bs
  | .interval a a', .interval b b' => sameBy same a b && sameBy same a' b'
  | .binary op a a', .binary op' b b' => op = op' && sameBy same a b && sameBy same a' b'
  | .neg a, .neg b => sameBy same a b
  | .apply fn a, .apply fn' b => fn = fn' && sameBy same a b
  | .log a a', .log b b' => sameBy same a b && sameBy same a' b'
  | .root n a, .root n' b => n == n' && sameBy same a b
  | .custom f ps a, .custom g qs b => f == g && allSameBy same ps qs && sameBy same a b
  | .compose a a', .compose b b' => sameBy same a b && sameBy same a' b'
  | .call f, .call g => f == g
  | _, _ => false

/-- Whether two lists of trees agree one by one. -/
def allSameBy (same : Num → Num → Bool) : List Expr → List Expr → Bool
  | [], [] => true
  | a :: as, b :: bs => sameBy same a b && allSameBy same as bs
  | _, _ => false

end

/-- Tree equality, in which literals are equal if they have the same value. -/
def equal (a b : Expr) : Bool := sameBy Num.sameValue a b

/-- Tree equality, in which a literal that is not a number agrees with itself too. -/
def unchanged (a b : Expr) : Bool := sameBy Num.alike a b

end Expr

end ExprCalculus
