import ExprCalculus.Evaluation.Domain
import ExprCalculus.Evaluation.Env

/-!
# Evaluation

The value of an expression under a tag, the names in it being looked up in an environment.  The tag changes
inside an expression: the elements of a vector and the bounds of an interval are numbers, so is the exponent
of an interval's power, and the inner function of a composition is evaluated as what the outer one takes.

`evaluateWith` recurs on the expression and leaves to its argument what a name is bound to.  `evaluateUpTo`
ties the knot for bindings that lead through at most a given number of names.
-/

namespace ExprCalculus

variable {α : Type} [Scalar α]

/-! ## Values of literals, operations and functions -/

/-- The value of a number. -/
def numberUnder (x : α) : Tag → Outcome α
  | .domain .real | .domain .vector => .ok (.real x)
  | .domain .interval => .ok (.interval (.point x))
  | .other s => .error (.invalidTag s)

/-- The value of a number literal. -/
def literalUnder (v : Num) : Tag → Outcome α
  | .other s => .error (.invalidTag s)
  | tag =>
    match Scalar.ofNum v with
    | .ok x => numberUnder x tag
    | .error f => .error (.fault f)

/-- Whether an operation is defined on two values in the domain of vectors. -/
def Value.vectorOperands : BinOp → Value α → Value α → Bool
  | _, .real _, .real _ => true
  | .plus, .vector _, .vector _ | .minus, .vector _, .vector _ => true
  | .times, .vector _, .real _ | .divide, .vector _, .real _ | .times, .real _, .vector _ => true
  | _, _, _ => false

/-- A binary operation on the values of its operands. -/
def combineUnder (op : BinOp) (a b : Value α) : Tag → Outcome α
  | .domain .real => .ofArithmetic (a.combine op b)
  | .domain .vector =>
    if a.vectorOperands op b then .ofArithmetic (a.combine op b)
    else .error (.unsupported (op.label ++ " of " ++ a.kindName ++ " and " ++ b.kindName) .vector)
  | .domain .interval =>
    if op = .modulo then .error (.unsupported op.label .interval) else .ofArithmetic (a.combine op b)
  | .other s => .error (.invalidTag s)

/-- The tag of the second operand: the exponent of an interval's power is a number. -/
def secondTag (op : BinOp) (tag : Tag) : Tag :=
  if op = .power ∧ tag = .domain .interval then .domain .real else tag

/-- Whether a function is evaluated on intervals, where it must increase. -/
def Fn.onIntervals : Fn → Bool
  | .exp | .ln | .sqrt => true
  | _ => false

/-- Whether a default function has values under a tag. -/
def Fn.hasValues (fn : Fn) : Tag → Bool
  | .domain .real => true
  | .domain .interval => fn.onIntervals
  | _ => false

/-- A default function of a value. -/
def applyFunction (fn : Fn) : Value α → Except (Fault α) (Value α)
  | .real x => (Scalar.function fn x).map .real
  | .interval i => Value.ofInterval (i.map (Scalar.function fn))
  | .vector xs => .error (.notNumber (Value.vector xs).kindName)

/-- Whether logarithms to a base and roots have values under a tag. -/
def Tag.isScalar : Tag → Bool
  | .domain .real | .domain .interval => true
  | _ => false

/-- A root of a value: its power to the reciprocal of the index. -/
def rootOf (index : Nat) (v : Value α) : Except (Fault α) (Value α) :=
  match (Scalar.ofNum (.int 1) : Except (Fault α) α) with
  | .error e => .error e
  | .ok one =>
    match (Scalar.ofNum (.int index) : Except (Fault α) α) with
    | .error e => .error e
    | .ok n =>
      match Scalar.divide one n with
      | .error e => .error e
      | .ok exponent => v.combine .power (.real exponent)

/-! ## Expressions -/

/-- The numbers that the inner function of a composition hands to the outer one of the given dimension. -/
def handedOver (inner : String) (dimension : Nat) (v : Value α) : Except (EvalError α) (List α) :=
  if dimension = 1 then
    match v.number with
    | .ok x => .ok [x]
    | .error f => .error (.fault f)
  else
    match v with
    | .vector xs => if xs.length = dimension then .ok xs else .error (.notVector inner dimension)
    | _ => .error (.notVector inner dimension)

/-- The tag under which the inner function of a composition is evaluated. -/
def innerTag (dimension : Nat) : Tag := .domain (if dimension = 1 then .real else .vector)

mutual

/-- The value of an expression, `bound` giving the value of what a name is bound to. -/
def evaluateWith (bound : Tag → Env α → Expr → Outcome α) : Expr → Tag → Env α → Outcome α
  | .number v, tag, _ => literalUnder v tag
  | .var x, tag, env =>
    match env.vars x with
    | none => .error (.unboundVariable x)
    | some (.number y) => numberUnder y tag
    | some (.tree e) => bound tag env e
  | .fixed e, tag, env => evaluateWith bound e tag env
  | .vector es, tag, env =>
    match tag with
    | .domain .vector =>
      match evaluateAll bound es (.domain .real) env with
      | .error e => .error e
      | .ok vs => .ofArithmetic (Value.ofComponents vs)
    | .domain .real =>
      if es.length = 1 then
        match evaluateAll bound es (.domain .real) env with
        | .error e => .error e
        | .ok [] => .refused "Vector" tag
        | .ok (v :: _) => .ok v
      else .refused "Vector" tag
    | _ => .refused "Vector" tag
  | .interval lo hi, tag, env =>
    if tag = .domain .interval then
      match evaluateWith bound lo (.domain .real) env with
      | .error e => .error e
      | .ok a =>
        match evaluateWith bound hi (.domain .real) env with
        | .error e => .error e
        | .ok b => .ofArithmetic (a.between b)
    else .refused "IntervalLiteral" tag
  | .binary op first second, tag, env =>
    match evaluateWith bound first tag env with
    | .error e => .error e
    | .ok a =>
      match evaluateWith bound second (secondTag op tag) env with
      | .error e => .error e
      | .ok b => combineUnder op a b tag
  | .neg e, tag, env =>
    match tag with
    | .other s => .error (.invalidTag s)
    | .domain _ =>
      match evaluateWith bound e tag env with
      | .error e => .error e
      | .ok v => .ofArithmetic v.negate
  | .apply fn arg, tag, env =>
    if fn.hasValues tag then
      match evaluateWith bound arg tag env with
      | .error e => .error e
      | .ok v => .ofArithmetic (applyFunction fn v)
    else .refused fn.name tag
  | .log base arg, tag, env =>
    if tag.isScalar then
      match evaluateWith bound arg tag env with
      | .error e => .error e
      | .ok a =>
        match applyFunction .ln a with
        | .error f => .error (.fault f)
        | .ok lnArg =>
          match evaluateWith bound base tag env with
          | .error e => .error e
          | .ok b =>
            match applyFunction .ln b with
            | .error f => .error (.fault f)
            | .ok lnBase => .ofArithmetic (lnArg.combine .divide lnBase)
    else .refused "log" tag
  | .root n arg, tag, env =>
    if tag.isScalar then
      match evaluateWith bound arg tag env with
      | .error e => .error e
      | .ok v => .ofArithmetic (rootOf n v)
    else .refused "nrt" tag
  | .custom _ _ body, tag, env => evaluateWith bound body tag env
  | .compose f g, tag, env =>
    let dimension := g.args.length
    if dimension = 0 ∨ 4 < dimension then .error (.composeDimension g.functionName dimension)
    else
      match evaluateWith bound f (innerTag dimension) env with
      | .error e => .error e
      | .ok v =>
        match handedOver f.functionName dimension v with
        | .error e => .error e
        | .ok xs => evaluateWith bound g tag (env.bindArguments g.args xs)
  | .call name, tag, env =>
    match env.funcs name with
    | none => .error (.unboundFunction name)
    | some f => bound tag env f

/-- The values of several expressions, up to the first error. -/
def evaluateAll (bound : Tag → Env α → Expr → Outcome α) :
    List Expr → Tag → Env α → Except (EvalError α) (List (Value α))
  | [], _, _ => .ok []
  | e :: es, tag, env =>
    match evaluateWith bound e tag env with
    | .error x => .error x
    | .ok v =>
      match evaluateAll bound es tag env with
      | .error x => .error x
      | .ok vs => .ok (v :: vs)

end

/-- The value of an expression, where names lead through fewer than `depth` bindings to names again. -/
def evaluateUpTo : Nat → Tag → Env α → Expr → Outcome α
  | 0, _, _, _ => .error .tooDeep
  | depth + 1, tag, env, e => evaluateWith (evaluateUpTo depth) e tag env

/-- The number of bindings that names may lead through. -/
def defaultDepth : Nat := 10000

/-- The value of an expression. -/
def evaluate (tag : Tag) (env : Env α) (e : Expr) : Outcome α := evaluateUpTo defaultDepth tag env e

end ExprCalculus
