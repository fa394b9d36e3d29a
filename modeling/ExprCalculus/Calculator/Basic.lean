import ExprCalculus.Calculator.Command

/-!
# The calculator

A calculation is a list of steps.  A step takes numbers, lists and the results of earlier steps; the result
of a failed step is nothing.
-/

namespace ExprCalculus.Calculator

/-- An argument of a step. -/
inductive Argument where
  | number (v : Num)
  | list (args : List Argument)
  /-- the result of an earlier step -/
  | result (step : Nat)

instance : Inhabited Argument := ⟨.list []⟩

mutual

/-- The datum an argument stands for. -/
def Argument.datum (results : List Datum) : Argument → Datum
  | .number v => .num v
  | .list args => .list (data results args)
  | .result i => (results[i]?).getD .nothing

/-- The data that arguments stand for. -/
def data (results : List Datum) : List Argument → List Datum
  | [] => []
  | a :: as => a.datum results :: data results as

end

/-- Whether two arguments are one vector or interval.  It equals itself, even where a component is not a
number. -/
def isSameValue (results : List Datum) : List Argument → Bool
  | [.result i, .result j] => i = j && (((results[i]?).bind Datum.value?).isSome)
  | _ => false

/-- Carries out one step after others; none if the number of arguments does not fit the command. -/
def step (results : List Datum) (c : Command) (args : List Argument) : Option Answer :=
  match c with
  | .equal =>
    if isSameValue results args then some (.ok (.truth true)) else c.run (data results args)
  | c => c.run (data results args)

/-- The datum that later steps see. -/
def Answer.datum : Answer → Datum
  | .ok d => d
  | .error _ => .nothing

end ExprCalculus.Calculator
