import ExprCalculus.Expr.Basic

/-!
# What names stand for

A variable is bound to an expression, which is evaluated whenever the variable is, or to a number that
was calculated.  A function name is bound to an expression.
-/

namespace ExprCalculus

/-- What a variable is bound to. -/
inductive Binding (α : Type) where
  | tree (e : Expr)
  | number (x : α)

/-- What the names in an expression stand for. -/
structure Env (α : Type) where
  vars : String → Option (Binding α)
  funcs : String → Option Expr

namespace Env

variable {α : Type}

/-- No name is bound. -/
def empty : Env α := ⟨fun _ => none, fun _ => none⟩

/-- Binds a variable, in place of what it was bound to. -/
def bind (env : Env α) (name : String) (b : Binding α) : Env α :=
  { env with vars := fun x => if x = name then some b else env.vars x }

/-- Binds the parameters among arguments to numbers, one after the other; a fixed argument takes its number
and ignores it. -/
def bindArguments (env : Env α) : List Expr → List α → Env α
  | a :: as, x :: xs =>
    match a.parameterName? with
    | some name => bindArguments (env.bind name (.number x)) as xs
    | none => bindArguments env as xs
  | _, _ => env

end Env

end ExprCalculus
