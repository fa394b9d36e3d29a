import ExprCalculus.Expr.Basic
import ExprCalculus.Text.Quoted

/-!
# Parameters of functions

The parameters of a function by position, where a negative position counts from the end, and by name.
The names that occur free in a tree, in order.
-/

namespace ExprCalculus

/-- Why there is no such parameter. -/
inductive ParameterError where
  | position
  | name (function name : String)

/-- The message of an error. -/
def ParameterError.message : ParameterError → String
  | .position => "tuple index out of range"
  | .name f x => "function " ++ Text.quoted f ++ " has no parameter " ++ Text.quoted x

namespace Expr

/-- The parameter at a position. -/
def parameterAt (e : Expr) (i : Int) : Except ParameterError Expr :=
  let n : Int := e.args.length
  let k := if i < 0 then i + n else i
  if k < 0 then .error .position
  else
    match e.args[k.toNat]? with
    | some a => .ok a
    | none => .error .position

/-- The first parameter of a name.  A fixed argument has the empty name. -/
def parameterNamed (e : Expr) (name : String) : Except ParameterError Expr :=
  match e.args.find? fun a => a.parameterName?.getD "" == name with
  | some a => .ok a
  | none => .error (.name e.functionName name)

/-- Puts a name in its place among names in order, once. -/
def insertName (x : String) : List String → List String
  | [] => [x]
  | y :: ys => if x = y then y :: ys else if x < y then x :: y :: ys else y :: insertName x ys

/-- The free names in order, each once. -/
def freeNames (e : Expr) : List String := e.freeVars.foldr insertName []

end Expr

end ExprCalculus
