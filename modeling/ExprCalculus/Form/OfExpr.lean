import ExprCalculus.Form.Reduce
import ExprCalculus.Form.Substitute

/-!
# Forms of expressions

`Builder` says how forms are made of parts: as they stand, or reduced.  Logarithms to a base, intervals,
columns and compositions are reduced in both ways.
-/

namespace ExprCalculus.Form

/-- A form, or why it cannot be made. -/
abbrev Built := Except FormFault Form

/-- How forms are made of parts. -/
structure Builder where
  sum : Form → Form → Built
  product : Form → Form → Built
  power : Form → Form → Built
  modulo : Form → Form → Built
  apply : Fn → Form → Built
  /-- the logarithm of the second form to the first -/
  logarithm : Form → Form → Built
  interval : Form → Form → Built
  column : List Form → Built
  /-- forms in the place of symbols, all at once -/
  substitute : List (String × Form) → Form → Built

/-- Sums, products, powers and applications as they stand. -/
def asWritten : Builder where
  sum := sumWith fun a b => .sum [a, b]
  product := productWith fun a b => .product [a, b]
  power a b := .ok (.power a b)
  modulo a b := .ok (.modulo a b)
  apply fn a := .ok (.apply fn a)
  logarithm b a := .ok (logarithmTo b a)
  interval := between
  column fs := .ok (column fs)
  substitute := substitute

/-- Every form reduced. -/
def reduced : Builder where
  sum a b := sumOf [a, b]
  product a b := productOf [a, b]
  power a b := .ok (raise a b)
  modulo := remainder
  apply fn a := .ok (applyTo fn a)
  logarithm b a := .ok (logarithmTo b a)
  interval := between
  column fs := .ok (column fs)
  substitute := substitute

/-- The form of a literal. -/
def ofNum : Num → Form
  | .int n => .int n
  | .float x => ofFloat x

/-- The form of a binary operation. -/
def ofOperation (mk : Builder) (op : BinOp) (a b : Form) : Built :=
  match op with
  | .plus => mk.sum a b
  | .minus =>
    match mk.product (.int (-1)) b with
    | .ok c => mk.sum a c
    | .error e => .error e
  | .times => mk.product a b
  | .divide =>
    match mk.power b (.int (-1)) with
    | .ok c => mk.product a c
    | .error e => .error e
  | .power => mk.power a b
  | .modulo => mk.modulo a b

/-- The form of a default function; a square root is a power. -/
def ofFunction (mk : Builder) (fn : Fn) (a : Form) : Built :=
  if fn = .sqrt then mk.power a (.ratio ⟨1, 2⟩) else mk.apply fn a

/-- What stands for the parameters of an outer function: the components of the inner one.  A fixed argument
takes a component and ignores it, and of parameters of one name the last counts. -/
def assignments : List Expr → List Form → List (String × Form)
  | p :: ps, c :: cs =>
    let later := assignments ps cs
    match p.parameterName? with
    | some x => if later.any fun a => a.1 == x then later else (x, c) :: later
    | none => later
  | _, _ => []

mutual

/-- The form of an expression. -/
def ofExpr (mk : Builder) : Expr → Built
  | .number v => .ok (ofNum v)
  | .var x => .ok (.symbol x)
  | .fixed e => ofExpr mk e
  | .vector es =>
    match ofExprs mk es with
    | .ok fs => mk.column fs
    | .error e => .error e
  | .interval a b =>
    match ofExpr mk a, ofExpr mk b with
    | .ok x, .ok y => mk.interval x y
    | .error e, _ | _, .error e => .error e
  | .binary op a b =>
    match ofExpr mk a, ofExpr mk b with
    | .ok x, .ok y => ofOperation mk op x y
    | .error e, _ | _, .error e => .error e
  | .neg a =>
    match ofExpr mk a with
    | .ok x => mk.product (.int (-1)) x
    | .error e => .error e
  | .apply fn a =>
    match ofExpr mk a with
    | .ok x => ofFunction mk fn x
    | .error e => .error e
  | .log base a =>
    match ofExpr mk a, ofExpr mk base with
    | .ok x, .ok b => mk.logarithm b x
    | .error e, _ | _, .error e => .error e
  | .root n a =>
    match ofExpr mk a with
    | .ok x => mk.power x (.ratio (.make 1 n))
    | .error e => .error e
  | .custom _ _ body => ofExpr mk body
  | .compose f g =>
    match ofExpr mk f, ofExpr mk g with
    | .ok x, .ok y => mk.substitute (assignments g.args x.rows) y
    | .error e, _ | _, .error e => .error e
  | .call name => .ok (.unknown name [])

/-- The forms of several expressions. -/
def ofExprs (mk : Builder) : List Expr → Except FormFault (List Form)
  | [] => .ok []
  | e :: es =>
    match ofExpr mk e, ofExprs mk es with
    | .ok f, .ok fs => .ok (f :: fs)
    | .error x, _ | _, .error x => .error x

end

end ExprCalculus.Form
