import ExprCalculus.Form.Reduce

/-!
# Operations that may be refused

Bounds that are not real make no interval, columns of different lengths have no sum and no product, and there
is no remainder by zero.

* `between` - the numbers between two bounds.  There are none if the upper bound is known to be below the lower one or a
  bound is an infinity on the wrong side, and a single one if the bounds are the same form.
* `remainder` - the remainder of numbers is carried out; a common integer factor of dividend and divisor is drawn out.
* `sumOf`, `productOf` - a matrix has a single column.  A column among the parts of another takes the place of one part
  for each of its rows.  Columns are added row by row and multiplied by a scalar row by row, and the rows are reduced.
-/

namespace ExprCalculus

/-! ## Forms that cannot be made -/

/-- Why a form cannot be made. -/
inductive FormFault where
  | notReal
  /-- a sum of columns with these numbers of rows -/
  | rowCounts (a b : Nat)
  /-- a product of a column with one that has this many rows -/
  | alignment (rows : Nat)
  | moduloByZero
  deriving DecidableEq, Repr

namespace FormFault

/-- The name of a fault's kind. -/
def label : FormFault → String
  | .notReal => "ValueError"
  | .rowCounts .. | .alignment _ => "ShapeError"
  | .moduloByZero => "ZeroDivisionError"

/-- The message of a fault. -/
def message : FormFault → String
  | .notReal => "Non-real intervals are not supported"
  | .rowCounts a b => "Matrices have mismatching shape: (" ++ Nat.repr a ++ ", " ++ Nat.repr b ++ ")"
  | .alignment rows => "('Matrices are not aligned', 1, " ++ Nat.repr rows ++ ")"
  | .moduloByZero => "Modulo by zero"

end FormFault

namespace Form

/-! ## Intervals -/

/-- Whether a form is known to be below another, given their difference.  Closed real forms are compared by
value; of others it must follow from what is known of their parts. -/
def isBelow (a b difference : Form) : Bool :=
  let known := difference.facts
  let compared : Option Int :=
    if a.isComparable && b.isComparable then difference.approx.bind Approx.sign? else none
  match compared with
  | some s => s < 0
  | none =>
    known.isNegative && ((a.facts.isReal && b.facts.isReal) || known.finite = some true)

/-- The set of the numbers between two bounds. -/
def between (lo hi : Form) : Except FormFault Form :=
  let difference := subtract hi lo
  if lo.facts.isNotReal || hi.facts.isNotReal || difference.facts.isNotReal then .error .notReal
  else if isBelow hi lo difference then .ok .emptySet
  else if lo.same (.constant .infinity) || hi.same (.constant .negativeInfinity) then .ok .emptySet
  else .ok (if lo.same hi then .finiteSet hi else .interval lo hi)

/-! ## Remainders -/

/-- The integer in front of a form. -/
def leadingInteger? (f : Form) : Option (Int × Form) :=
  match f.splitCoefficient with
  | (.ratio q, rest) => q.integer?.map fun n => (n, rest)
  | _ => none

/-- The remainder where no further rule says what it is, a common integer factor drawn out. -/
def remainderLeft (a b : Form) : Form :=
  match a, a.leadingInteger?, b.leadingInteger? with
  | .product _, some (m, x), some (n, y) =>
    let g := Int.gcd m n
    if g < 2 then .modulo a b
    else multiply [.int g, .modulo (multiply [.int (m / g), x]) (multiply [.int (n / g), y])]
  | _, _, _ => .modulo a b

/-- The reduced remainder. -/
def remainder (a b : Form) : Except FormFault Form :=
  if b.facts.isZero then .error .moduloByZero
  else if a.same .undefined || b.same .undefined || a.facts.finite = some false || b.facts.finite = some false
  then .ok .undefined
  else if a.isInt 0 || a.same b || a.same (negate b) || (a.facts.integer = some true && b.isInt 1) then
    .ok (.int 0)
  else
    match a.number?, b.number? with
    | some c, some d => .ok (c.rem d).form
    | _, _ => .ok (remainderLeft a b)

/-! ## Columns -/

/-- The rows of a column, or the form alone. -/
def rows : Form → List Form
  | .matrix fs => fs
  | f => [f]

/-- The column of several parts. -/
def column (parts : List Form) : Form := .matrix (parts.flatMap rows)

/-- A row, in which every zero is the integer zero. -/
def asRow (f : Form) : Form :=
  match f.number? with
  | some c => if c.isZero then .int 0 else f
  | none => f

/-- The sum of two rows. -/
def addRow (a b : Form) : Form :=
  if a.isInt 0 then b else if b.isInt 0 then a else asRow (add [a, b])

/-- A row times a scalar. -/
def scaleRow (scalar a : Form) : Form := if a.isInt 0 then a else asRow (multiply [a, scalar])

/-- The column of the sums of rows. -/
def addColumns (as bs : List Form) : Except FormFault Form :=
  if as.length = bs.length then .ok (.matrix (List.zipWith addRow as bs))
  else .error (.rowCounts as.length bs.length)

/-- The product of two columns, of which the second must have a single row. -/
def multiplyColumns (as : List Form) : List Form → Except FormFault Form
  | [b] => .ok (.matrix (as.map (scaleRow b)))
  | bs => .error (.alignment bs.length)

/-- The sum of two forms; `plain` adds those that are no columns.  A scalar and a column stay side by side. -/
def sumWith (plain : Form → Form → Form) (a b : Form) : Except FormFault Form :=
  match a, b with
  | .matrix as, .matrix bs => addColumns as bs
  | .matrix as, b => .ok (.sum [b, .matrix as])
  | a, .matrix bs => .ok (.sum [a, .matrix bs])
  | a, b => .ok (plain a b)

/-- The product of two forms; `plain` multiplies those that are no columns. -/
def productWith (plain : Form → Form → Form) (a b : Form) : Except FormFault Form :=
  match a, b with
  | .matrix as, .matrix bs => multiplyColumns as bs
  | .matrix as, b => .ok (.matrix (as.map (scaleRow b)))
  | a, .matrix bs => .ok (.matrix (bs.map (scaleRow a)))
  | a, b => .ok (plain a b)

/-- Whether a form is a column. -/
def isMatrix : Form → Bool
  | .matrix _ => true
  | _ => false

/-- The reduced sum of forms, some of which may be columns. -/
def sumOf (fs : List Form) : Except FormFault Form :=
  let scalars := fs.filter fun f => !f.isMatrix
  match fs.filter isMatrix with
  | [] => .ok (add fs)
  | m :: ms =>
    (ms.foldlM (sumWith fun a b => add [a, b]) m).map fun total =>
      if scalars.isEmpty then total else .sum ((add scalars).terms ++ [total])

/-- The reduced product of forms, some of which may be columns. -/
def productOf (fs : List Form) : Except FormFault Form :=
  let scalars := fs.filter fun f => !f.isMatrix
  match fs.filter isMatrix with
  | [] => .ok (multiply fs)
  | m :: ms =>
    let first := if scalars.isEmpty then m else .matrix (m.rows.map (scaleRow (multiply scalars)))
    ms.foldlM (productWith fun a b => multiply [a, b]) first

end Form

end ExprCalculus
