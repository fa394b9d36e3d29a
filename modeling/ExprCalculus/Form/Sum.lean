import ExprCalculus.Form.Reducer

/-!
# Reduced sums

The numbers of a sum are added up and like terms collected; the number stands first, the other terms in
order.  An infinity takes in what is real, and two infinities that do not agree leave nothing defined.
-/

namespace ExprCalculus.Form

/-- A sum as it is collected: a number or the complex infinity, and the terms with their coefficients. -/
structure Total where
  constant : Form
  parts : List (Form × Coefficient)

/-- Adds to the coefficient of a term. -/
def addPart (t : Form) (c : Coefficient) : List (Form × Coefficient) → List (Form × Coefficient)
  | [] => [(t, c)]
  | (u, d) :: rest => if u.same t then (u, d.add c) :: rest else (u, d) :: addPart t c rest

/-- Whether a coefficient is not a number. -/
def isUndefinedPart (p : Form × Coefficient) : Bool :=
  match p.2 with
  | .undefined => true
  | _ => false

/-- Adds a form; none if the sum is not defined. -/
def Total.insert (t : Total) (f : Form) : Option Total :=
  match f.number? with
  | some c =>
    match t.constant.number?, c with
    | _, .undefined => none
    | some d, c =>
      match d.add c with
      | .undefined => none
      | e => some { t with constant := e.form }
    | none, c => if c.isFinite then some t else none
  | none =>
    match f with
    | .constant .complexInfinity =>
      match t.constant.number? with
      | some c => if c.isFinite then some { t with constant := .complexInfinity } else none
      | none => none
    | f =>
      let (c, s) : Coefficient × Form :=
        match f with
        | .product fs => splitCoefficient (.product fs)
        | f => (.int 1, f)
      let parts := addPart s c t.parts
      if parts.any isUndefinedPart then none else some { t with parts }

/-- The terms of forms, sums taken apart and powers of numbers carried out. -/
def spreadTerms (r : Reducer) : Nat → List Form → List Form
  | 0, fs => fs
  | _, [] => []
  | fuel + 1, f :: rest =>
    match f with
    | .sum ts => spreadTerms r fuel (rest ++ ts)
    | .power .. =>
      let (b, e) := f.baseExponent
      match b.number?, e with
      | some _, .ratio q =>
        if q.den = 1 || q.isNegative then spreadTerms r fuel (rest ++ [r.raise b e])
        else f :: spreadTerms r fuel rest
      | _, _ => f :: spreadTerms r fuel rest
    | f => f :: spreadTerms r fuel rest

/-- A term with its coefficient. -/
def scaledPart (r : Reducer) (p : Form × Coefficient) : List Form :=
  if p.2.isZero then []
  else if p.2.isOne then [p.1]
  else
    match p.1 with
    | .product fs => [.product (p.2.form :: fs)]
    | .sum ts => [.product [p.2.form, .sum ts]]
    | f => [r.multiply [p.2.form, f]]

/-- The terms that a constant does not take in. -/
def keptTerms (constant : Form) (ts : List Form) : List Form :=
  match constant with
  | .constant .infinity =>
    ts.filter fun t => !(t.facts.isNonnegative || (t.facts.isReal && t.facts.finite = some true))
  | .constant .negativeInfinity =>
    ts.filter fun t => !(t.facts.isNonpositive || (t.facts.isReal && t.facts.finite = some true))
  | .constant .complexInfinity =>
    ts.filter fun t => !(t.facts.finite = some true && t.facts.decidesReal)
  | _ => ts

/-- The reduced sum of at least two forms. -/
def collectTerms (r : Reducer) (ts : List Form) : Form :=
  let all := spreadTerms r (2 * sizeAll ts + 16) ts
  match all.foldlM Total.insert ⟨.int 0, []⟩ with
  | none => .undefined
  | some t =>
    let kept := inOrder (keptTerms t.constant (t.parts.flatMap (scaledPart r)))
    ofTerms (if t.constant.isInt 0 then kept else t.constant :: kept)

/-- The reduced sum of forms.  A ratio and a product are left as they are. -/
def reducedSum (r : Reducer) (ts : List Form) : Form :=
  match ts.filter fun t => !t.isInt 0 with
  | [] => .int 0
  | [t] => t
  | [.product fs, .ratio q] => .sum [.ratio q, .product fs]
  | [.ratio q, .product fs] => .sum [.ratio q, .product fs]
  | ts => collectTerms r ts

end ExprCalculus.Form
