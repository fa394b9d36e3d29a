import ExprCalculus.Form.Partial

/-!
# Substitution

Forms are put in the place of symbols, all at once.  Every node that holds such a symbol is reduced anew, the
others stay as they are.  So that no form meets a symbol that is still to be replaced, the symbols first make
place for fresh ones, and those for the forms.
-/

namespace ExprCalculus.Form

/-- A form after replacement, and whether anything was replaced in it. -/
abbrev Replaced := Except FormFault (Form × Bool)

/-- Makes a node anew of its parts if one of them changed. -/
def remade (old : Form) (parts : List (Form × Bool)) (make : List Form → Except FormFault Form) : Replaced :=
  if parts.any (·.2) then (make (parts.map (·.1))).map fun f => (f, true) else .ok (old, false)

/-- A rule for two parts. -/
def ofPair (make : Form → Form → Except FormFault Form) : List Form → Except FormFault Form
  | [a, b] => make a b
  | fs => .ok (.matrix fs)

/-- A rule for one part. -/
def ofSingle (make : Form → Form) : List Form → Except FormFault Form
  | [a] => .ok (make a)
  | fs => .ok (.matrix fs)

/-- A product made anew.  If asked to, one that would not stay a product keeps its number apart. -/
def remadeProduct (keep : Bool) (fs : List Form) : Except FormFault Form :=
  match productOf fs with
  | .ok (.product gs) => .ok (.product gs)
  | .ok f =>
    let numbers := fs.filterMap number?
    let others := fs.filter fun g => !g.isNumber
    let c := numbers.foldl Coefficient.mul (.int 1)
    if !keep || f.isMatrix then .ok f
    else if c.isOne then productOf others
    else (productOf others).map fun g => .product [c.form, g]
  | .error e => .error e

mutual

/-- Puts forms in the place of symbols. -/
def replace (keep : Bool) (put : String → Option Form) : Form → Replaced
  | .symbol x =>
    match put x with
    | some f => .ok (f, true)
    | none => .ok (.symbol x, false)
  | .sum ts => do remade (.sum ts) (← replaceAll keep put ts) sumOf
  | .product fs => do remade (.product fs) (← replaceAll keep put fs) (remadeProduct keep)
  | .power a b => do
    remade (.power a b) [← replace keep put a, ← replace keep put b] (ofPair fun x y => .ok (raise x y))
  | .modulo a b => do
    remade (.modulo a b) [← replace keep put a, ← replace keep put b] (ofPair remainder)
  | .apply fn a => do remade (.apply fn a) [← replace keep put a] (ofSingle (applyTo fn))
  | .unknown f as => do remade (.unknown f as) (← replaceAll keep put as) fun bs => .ok (.unknown f bs)
  | .matrix as => do remade (.matrix as) (← replaceAll keep put as) fun bs => .ok (column bs)
  | .interval a b => do
    remade (.interval a b) [← replace keep put a, ← replace keep put b] (ofPair between)
  | .finiteSet a => do remade (.finiteSet a) [← replace keep put a] (ofSingle .finiteSet)
  | f => .ok (f, false)

/-- Puts forms in the place of symbols, in several forms. -/
def replaceAll (keep : Bool) (put : String → Option Form) : List Form → Except FormFault (List (Form × Bool))
  | [] => .ok []
  | a :: as => do return (← replace keep put a) :: (← replaceAll keep put as)

end

/-- The name of a fresh symbol, which is no name that can be written and comes before those. -/
def freshName (i : Nat) : String := " " ++ Nat.repr i

/-- The name of the symbol that fresh symbols are multiplied by, and which stands for one.  It keeps a product
from losing its shape as long as its factors are not known. -/
def unitName : String := " "

/-- What is put in the place of a symbol; of several the last counts. -/
def valueOf? (assigned : List (String × Form)) (x : String) : Option Form :=
  (assigned.reverse.find? fun p => p.1 == x).map (·.2)

/-- Puts forms in the place of symbols, all at once. -/
def substitute (assigned : List (String × Form)) (f : Form) : Except FormFault Form := do
  let news := assigned.filter fun p => !p.2.same (.symbol p.1)
  let fresh := news.zipIdx.map fun (p, i) =>
    (p.1, Form.product [.symbol unitName, .symbol (freshName i)])
  let values := news.zipIdx.map fun (p, i) => (freshName i, p.2)
  let (opened, _) ← replace true (valueOf? fresh) f
  let (closed, _) ← replace false (valueOf? ((unitName, .int 1) :: values)) opened
  return closed

end ExprCalculus.Form
