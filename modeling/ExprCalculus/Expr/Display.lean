import ExprCalculus.Expr.Basic
import ExprCalculus.Number.Decimal

/-!
# Expressions as text

Every binary operation stands in parentheses, save where it is the whole argument of a function.  A
negative literal stands in parentheses of its own, and so does the negated base of a power.
-/

namespace ExprCalculus

/-- Text of a literal inside an expression. -/
def Num.display (v : Num) : String :=
  if v.isNegative then "(" ++ v.text ++ ")" else v.text

namespace Expr

mutual

/-- Text of an expression.  `bare` leaves out the parentheses of an outermost binary operation. -/
def render (bare : Bool) : Expr → String
  | .number v => v.display
  | .var x => x
  | .fixed e => render false e
  | .vector es => "[" ++ ", ".intercalate (renderAll false es) ++ "]"
  | .interval a b => "[" ++ render false a ++ " .. " ++ render false b ++ "]"
  | .binary op a b =>
    let base :=
      match op, a with
      | .power, .neg _ => "(" ++ render false a ++ ")"
      | _, _ => render false a
    let text := base ++ " " ++ op.symbol ++ " " ++ render false b
    if bare then text else "(" ++ text ++ ")"
  | .neg a =>
    match a with
    | .binary .. => "-" ++ render false a
    | _ => "-(" ++ render false a ++ ")"
  | .apply fn a => fn.name ++ "(" ++ render true a ++ ")"
  | .log base a => "log(" ++ render true base ++ ", " ++ render true a ++ ")"
  | .root n a => "nrt(" ++ Nat.repr n ++ ", " ++ render true a ++ ")"
  | .custom name params _ => name ++ "(" ++ ", ".intercalate (renderAll true params) ++ ")"
  | .compose f g =>
    "comp(" ++ f.functionName ++ "," ++ g.functionName ++ ")(" ++ ", ".intercalate (renderArgs f) ++ ")"
  | .call name => name ++ "()"

/-- Texts of several expressions. -/
def renderAll (bare : Bool) : List Expr → List String
  | [] => []
  | e :: es => render bare e :: renderAll bare es

/-- Texts of a function's arguments. -/
def renderArgs : Expr → List String
  | .apply _ a => [render true a]
  | .log base a => [render true base, render true a]
  | .root _ a => [render true a]
  | .custom _ params _ => renderAll true params
  | .compose f _ => renderArgs f
  | _ => []

end

/-- Text of an expression. -/
def text (e : Expr) : String := render false e

/-- Text of a function with its definition. -/
def definitionText : Expr → String
  | .custom name params body => (Expr.custom name params body).text ++ " = " ++ body.text
  | e => e.text

end Expr

end ExprCalculus
