import ExprCalculus.Expr.Build
import ExprCalculus.Scope.Store

/-!
# Binding parts of any kind

A variable may be given as a tree that is a named variable or as its name; a function must be one.
-/

namespace ExprCalculus

/-- Why a name cannot be bound. -/
inductive BindError where
  | notVariable (part : Part)
  | notFunction (part : Part)
  | value (e : BuildError)

namespace BindError

/-- The message of an error. -/
def message : BindError → String
  | .notVariable p => "can only bind named variables, not " ++ p.display
  | .notFunction p => "can only bind functions, not " ++ p.display
  | .value e => e.message

/-- The name of the kind of error. -/
def label : BindError → String
  | .value e => e.label
  | _ => "TypeError"

end BindError

namespace Store

/-- The name of a variable given as a part. -/
def variableName? : Part → Option String
  | .expr (.var x) => if x = "" then none else some x
  | .text s => if s = "" then none else some s
  | _ => none

/-- Binds a name to a part. -/
def bindName (s : Store) (scope : Nat) (name : String) (value : Part) : Except BindError Store :=
  match Build.expression value with
  | .error e => .error (.value e)
  | .ok e => .ok (s.bindVariable scope name e)

/-- Binds a variable given as a part. -/
def bindPart (s : Store) (scope : Nat) (var value : Part) : Except BindError Store :=
  match variableName? var with
  | none => .error (.notVariable var)
  | some name => s.bindName scope name value

/-- Binds a function name to a part. -/
def bindFunctionPart (s : Store) (scope : Nat) (name : String) (value : Part) :
    Except BindError Store :=
  match value with
  | .expr e =>
    if e.isFunction then .ok (s.bindFunction scope name e) else .error (.notFunction value)
  | _ => .error (.notFunction value)

end Store

end ExprCalculus
