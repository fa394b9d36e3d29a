import ExprCalculus.Expr.Basic
import ExprCalculus.Text.Quoted

/-!
# Kinds of nodes

Every kind of node has a tag and a name.  The set of kinds is closed under registration of new ones: a new
kind has to supply every operation on trees, and its tag must be free.
-/

namespace ExprCalculus

/-- The name of a default function's kind. -/
def Fn.kindName : Fn → String
  | .exp => "Exponential"
  | .ln => "Ln"
  | .sqrt => "Sqrt"
  | .sin => "Sin"
  | .cos => "Cos"
  | .tan => "Tan"
  | .arcsin => "Asin"
  | .arccos => "Acos"
  | .arctan => "Atan"
  | .abs => "Abs"
  | .ceil => "Ceil"
  | .floor => "Floor"
  | .sgn => "Sgn"

/-- The name of a tree's kind. -/
def Expr.kindName : Expr → String
  | .apply fn _ => fn.kindName
  | .log .. => "Log"
  | .root .. => "Root"
  | .custom .. => "CustomFunction"
  | .compose .. => "CompositeFunction"
  | .call _ => "FunctionCall"
  | e => e.label

namespace Kinds

/-- A registered kind. -/
structure Kind where
  tag : String
  name : String
  deriving DecidableEq

/-- The default functions in the order of their registration. -/
def fns : List Fn :=
  [.exp, .ln, .sqrt, .sin, .cos, .tan, .arcsin, .arccos, .arctan, .abs, .ceil, .floor, .sgn]

/-- The kinds the library itself registers. -/
def builtin : List Kind :=
  [⟨"#", "Number"⟩, ⟨"@", "Variable"⟩, ⟨"@=", "BoundVariable"⟩, ⟨"-vec", "Vector"⟩,
    ⟨"-ivl", "IntervalLiteral"⟩, ⟨"+", "Plus"⟩, ⟨"-", "Minus"⟩, ⟨"*", "Times"⟩, ⟨"/", "Divide"⟩,
    ⟨"^", "Power"⟩, ⟨"%", "Modulo"⟩, ⟨"u-", "UnaryMinus"⟩, ⟨"log", "Log"⟩, ⟨"nrt", "Root"⟩] ++
  fns.map (fun fn => ⟨fn.name, fn.kindName⟩) ++
  [⟨"-func", "CustomFunction"⟩, ⟨"-comp", "CompositeFunction"⟩, ⟨"-call", "FunctionCall"⟩]

/-- The operations a kind has to supply, in the order in which they are looked for. -/
def required : List String := ["evaluate", "derive", "simplify", "__str__"]

/-- Why a kind is refused. -/
inductive RegisterError where
  | missing (kind operation : String)
  | tagTaken (tag kind owner : String)
  deriving DecidableEq

/-- The message of a refusal. -/
def RegisterError.message : RegisterError → String
  | .missing kind operation => "node class " ++ kind ++ " does not supply " ++ operation ++ " ()"
  | .tagTaken tag kind owner =>
    "node tag " ++ Text.quoted tag ++ " of " ++ kind ++ " already registered to " ++ owner

/-- Adds a kind that supplies the given operations. -/
def register (kinds : List Kind) (kind : Kind) (supplied : List String) :
    Except RegisterError (List Kind) :=
  match required.find? fun op => !supplied.contains op with
  | some op => .error (.missing kind.name op)
  | none =>
    match kinds.find? fun k => k.tag == kind.tag with
    | some k => .error (.tagTaken kind.tag kind.name k.name)
    | none => .ok (kinds ++ [kind])

end Kinds

end ExprCalculus
