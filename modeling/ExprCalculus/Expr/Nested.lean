import ExprCalculus.Expr.Basic
import ExprCalculus.Number.Decimal
import ExprCalculus.Text.Quoted

/-!
# Expressions as nested tuples

A tree can be shown as a tuple whose first component is a tag.  In this form the fixed arguments of a
function carry their mark.
-/

namespace ExprCalculus

/-- A nested tuple of texts, numbers and tuples. -/
inductive Nested where
  | text (s : String)
  | number (v : Num)
  | tuple (parts : List Nested)

namespace Nested

/-- A parenthesised list; one component keeps its comma. -/
def enclose : List String → String
  | [x] => "(" ++ x ++ ",)"
  | xs => "(" ++ ", ".intercalate xs ++ ")"

mutual

/-- Text of a tuple. -/
def display : Nested → String
  | .text s => Text.quoted s
  | .number v => v.text
  | .tuple xs => enclose (displayAll xs)

/-- Texts of several components. -/
def displayAll : List Nested → List String
  | [] => []
  | x :: xs => display x :: displayAll xs

end

end Nested

namespace Expr

/-- Puts the mark of a fixed argument on the tuple of an argument. -/
def markFixed : Expr → Nested → Nested
  | .var _, n => n
  | .fixed _, n => n
  | _, n => .tuple [.text "@=", n]

mutual

/-- The tuple of a tree. -/
def nested : Expr → Nested
  | .number v => .tuple [.text "#", .number v]
  | .var x => .tuple [.text "@", .text x]
  | .fixed e => .tuple [.text "@=", nested e]
  | .vector es => .tuple [.text "-vec", .tuple (nestedAll es)]
  | .interval a b => .tuple [.text "-ivl", nested a, nested b]
  | .binary op a b => .tuple [.text op.symbol, nested a, nested b]
  | .neg a => .tuple [.text "u-", nested a]
  | .apply fn a => .tuple [.text fn.name, .tuple [markFixed a (nested a)]]
  | .log base a => .tuple [.text "log", .tuple [markFixed base (nested base), markFixed a (nested a)]]
  | .root n a => .tuple [.text "nrt", .number (.int n), .tuple [markFixed a (nested a)]]
  | .custom name params body => .tuple [.text "-func", .text name, .tuple (nestedArgs params), nested body]
  | .compose f g => .tuple [.text "-comp", nested f, nested g]
  | .call name => .tuple [.text "-call", .text name]

/-- The tuples of several trees. -/
def nestedAll : List Expr → List Nested
  | [] => []
  | e :: es => nested e :: nestedAll es

/-- The tuples of several arguments. -/
def nestedArgs : List Expr → List Nested
  | [] => []
  | e :: es => markFixed e (nested e) :: nestedArgs es

end

end Expr

end ExprCalculus
