import ExprCalculus.Text.Quoted
import ExprCalculus.Value.Basic

/-!
# Domains of evaluation

An expression is evaluated as a number, a vector or an interval.  A request for an evaluation carries a tag,
which may also name no domain; such a tag is refused where the expression first depends on it.
-/

namespace ExprCalculus

/-- What an expression is evaluated as. -/
inductive Domain where
  | real
  | vector
  | interval
  deriving DecidableEq, Repr

/-- The name of a domain. -/
def Domain.name : Domain → String
  | .real => "REAL"
  | .vector => "VECTOR"
  | .interval => "INTERVAL"

/-- What an evaluation is asked for. -/
inductive Tag where
  | domain (d : Domain)
  | other (name : String)
  deriving DecidableEq, Repr

/-- The tag of a name: one of the three domains, or none. -/
def Tag.ofName (s : String) : Tag :=
  match [Domain.real, .vector, .interval].find? fun d => d.name == s with
  | some d => .domain d
  | none => .other s

/-- Why an expression has no value. -/
inductive EvalError (α : Type) where
  | unboundVariable (name : String)
  | unboundFunction (name : String)
  /-- an expression or operation that has no value in a domain -/
  | unsupported (what : String) (domain : Domain)
  | invalidTag (name : String)
  /-- a function that cannot be the outer one of a composition, for the number of its arguments -/
  | composeDimension (outer : String) (dimension : Nat)
  /-- an inner function whose value does not fit the arguments of the outer one -/
  | notVector (inner : String) (dimension : Nat)
  | fault (f : Fault α)
  /-- bindings that lead through more names than allowed -/
  | tooDeep

/-- The message of an evaluation error, numbers being written by `text`. -/
def EvalError.message {α : Type} (text : α → String) : EvalError α → String
  | .unboundVariable x => "variable " ++ Text.quoted x ++ " is not bound"
  | .unboundFunction f => "function " ++ Text.quoted f ++ " is not bound"
  | .unsupported what d => "can not evaluate " ++ what ++ " on " ++ d.name
  | .invalidTag s => "invalid evaluation type " ++ Text.quoted s
  | .composeDimension g n =>
    "can not compose into function " ++ Text.quoted g ++ " of dimension " ++ Nat.repr n
  | .notVector f n =>
    "function " ++ Text.quoted f ++ " does not produce a vector of dimension " ++ Nat.repr n
  | .fault f => f.message text
  | .tooDeep => "maximum depth of bindings exceeded"

/-- The name of an error's kind. -/
def EvalError.label {α : Type} : EvalError α → String
  | .unboundVariable _ => "UnboundVariableError"
  | .unboundFunction _ => "UnboundFunctionError"
  | .unsupported .. => "UnsupportedDomainError"
  | .invalidTag _ => "TypeError"
  | .composeDimension .. | .notVector .. => "UnsupportedDimensionError"
  | .fault f => f.label
  | .tooDeep => "RecursionError"

/-- The outcome of an evaluation. -/
abbrev Outcome (α : Type) := Except (EvalError α) (Value α)

namespace Outcome

variable {α : Type}

/-- A result of arithmetic as an outcome. -/
def ofArithmetic : Except (Fault α) (Value α) → Outcome α
  | .ok v => .ok v
  | .error f => .error (.fault f)

/-- The outcome for what has no value under a tag. -/
def refused (what : String) : Tag → Outcome α
  | .domain d => .error (.unsupported what d)
  | .other s => .error (.invalidTag s)

end Outcome

end ExprCalculus
