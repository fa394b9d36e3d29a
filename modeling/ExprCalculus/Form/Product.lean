import ExprCalculus.Form.Reducer

/-!
# Reduced products

The numbers of a product are multiplied, powers of like bases joined, roots of numbers brought together, and
the imaginary unit counted as a half power of minus one.  The number stands first, the other factors in order;
a number times a single sum is distributed.
-/

namespace ExprCalculus.Form

/-- A product as it is collected. -/
structure Harvest where
  /-- a number or the complex infinity -/
  constant : Form
  /-- the exponent of minus one -/
  turns : Ratio
  /-- bases and exponents -/
  powers : List (Form × Form)
  /-- numbers and their exponents that are no ratios -/
  numericPowers : List (Form × Form)
  /-- positive ratios and their exponents, which are no integers -/
  roots : List (Ratio × Ratio)

/-- Nothing collected. -/
def Harvest.start : Harvest := ⟨.int 1, .ofInt 0, [], [], []⟩

/-- Adds to the exponent of a ratio. -/
def addRoot (b e : Ratio) : List (Ratio × Ratio) → List (Ratio × Ratio)
  | [] => [(b, e)]
  | (c, d) :: rest => if c = b then (c, d.add e) :: rest else (c, d) :: addRoot b e rest

/-- The positive ratio and the exponent of minus one in a root of a ratio. -/
def Harvest.insertRoot (h : Harvest) (b e : Ratio) : Harvest :=
  let turns := if b.isNegative then h.turns.add e else h.turns
  let size : Ratio := ⟨b.num.natAbs, b.den⟩
  if size = .ofInt 1 then { h with turns } else { h with turns, roots := addRoot size e h.roots }

/-- Multiplies the constant. -/
def Harvest.times (h : Harvest) (c : Form) : Harvest :=
  { h with constant := multiplyConstants h.constant c }

/-- What to do with a factor: collect it, put other factors in its place, or give up. -/
inductive Step where
  | collect (h : Harvest)
  | replace (fs : List Form)

/-- Deals with a power. -/
def Harvest.stepPower (r : Reducer) (h : Harvest) (f : Form) : Step :=
  let (b, e) := f.baseExponent
  let keep := Step.collect { h with powers := h.powers ++ [(b, e)] }
  match b.number?, e with
  | some c, .ratio q =>
    if q.den = 1 then
      let v := r.raise b e
      if v.isConstant then .collect (h.times v) else .replace [v]
    else if q.isNegative then .replace [r.raise b e]
    else
      match c with
      | .ratio p => .collect (h.insertRoot p q)
      | _ => .replace [r.raise b e]
  | some c, e =>
    if c.isPositive || e.facts.integer = some true then
      .collect { h with numericPowers := h.numericPowers ++ [(b, e)] }
    else keep
  | none, _ => keep

/-- Deals with a factor. -/
def Harvest.step (r : Reducer) (h : Harvest) (f : Form) : Step :=
  match f with
  | .product fs => .replace fs
  | .constant .imaginaryUnit => .collect { h with turns := h.turns.add ⟨1, 2⟩ }
  | .power b e => h.stepPower r (.power b e)
  | f =>
    if f.isConstant then .collect (h.times f)
    else
      let (b, e) := f.baseExponent
      .collect { h with powers := h.powers ++ [(b, e)] }

/-- Collects factors; those that others are replaced by wait for their turn.  A replacement that does not
change is collected as it is. -/
def harvest (r : Reducer) : Nat → Harvest → List Form → Harvest
  | _, h, [] => h
  | 0, h, fs => { h with powers := h.powers ++ fs.map fun f => (f, .int 1) }
  | fuel + 1, h, f :: rest =>
    match h.step r f with
    | .collect h' => harvest r fuel h' rest
    | .replace gs =>
      if gs.any fun g => g.same f then
        harvest r fuel { h with powers := h.powers ++ [f.baseExponent] } rest
      else harvest r fuel h (rest ++ gs)

/-! ## Like bases -/

/-- Adds a coefficient to that of a part of an exponent. -/
def addExponent (t : Form) (c : Coefficient) : List (Form × Coefficient) → List (Form × Coefficient)
  | [] => [(t, c)]
  | (u, d) :: rest => if u.same t then (u, d.add c) :: rest else (u, d) :: addExponent t c rest

/-- Adds an exponent to those of a base. -/
def addBase (b e : Form) :
    List (Form × List (Form × Coefficient)) → List (Form × List (Form × Coefficient))
  | [] => [(b, [(e.splitCoefficient.2, e.splitCoefficient.1)])]
  | (c, es) :: rest =>
    if c.same b then (c, addExponent e.splitCoefficient.2 e.splitCoefficient.1 es) :: rest
    else (c, es) :: addBase b e rest

/-- Powers with like bases and like exponents joined. -/
def gather (r : Reducer) (ps : List (Form × Form)) : List (Form × Form) :=
  (ps.foldl (fun all p => addBase p.1 p.2 all) []).flatMap fun (b, es) =>
    es.map fun (t, c) => (b, r.multiply [c.form, t])

/-- Powers carried out: the factors they come to, and their bases and exponents after that. -/
structure Raised where
  factors : List Form
  powers : List (Form × Form)
  changed : Bool

/-- Whether a form has an infinity among its parts. -/
def hasInfinity : Form → Bool
  | .sum fs | .product fs =>
    fs.any fun f =>
      f.same .complexInfinity || f.same (.constant .infinity) || f.same (.constant .negativeInfinity)
  | _ => false

/-- Carries out a power; none if it cancels an infinity. -/
def Raised.insert (r : Reducer) (done : Raised) (p : Form × Form) : Option Raised :=
  let (b, e) := p
  if e.facts.isZero then (if b.hasInfinity then none else some done)
  else if e.isInt 1 then
    some { done with factors := done.factors ++ [b], powers := done.powers ++ [(b, e)] }
  else
    let v := r.raise b e
    let (b', e') : Form × Form :=
      match v, b with
      | .power .., .power .. => (b, e)
      | .power .., _ => v.baseExponent
      | _, _ => (b, e)
    some
      { factors := done.factors ++ [v]
        powers := done.powers ++ [(b', e')]
        changed := done.changed || !b'.same b }

/-- Carries out powers.  If bases changed and some are now alike, they are gathered once more. -/
def raiseAll (r : Reducer) : Nat → List (Form × Form) → Option (List Form)
  | rounds, ps =>
    match ps.foldlM (Raised.insert r) ⟨[], [], false⟩ with
    | none => none
    | some done =>
      let bases := done.powers.map (·.1)
      match rounds with
      | 0 => some done.factors
      | more + 1 =>
        if done.changed && (distinct bases).length ≠ bases.length then
          raiseAll r more (gather r done.powers)
        else some done.factors

/-- Powers of numbers with like exponents joined. -/
def joinNumeric (r : Reducer) (ps : List (Form × Form)) : List Form :=
  let insert (all : List (Form × List Form)) (p : Form × Form) : List (Form × List Form) :=
    if all.any fun q => q.1.same p.2 then
      all.map fun q => if q.1.same p.2 then (q.1, q.2 ++ [p.1]) else q
    else all ++ [(p.2, [p.1])]
  (ps.foldl insert []).map fun (e, bs) => r.raise (r.multiply bs) e

/-! ## Roots of numbers -/

/-- The greatest common divisor of two ratios. -/
def ratioGcd (a b : Ratio) : Ratio := .make (Int.gcd a.num b.num) (Nat.lcm a.den b.den)

/-- A ratio to an integer. -/
def ratioPower (b : Ratio) (n : Int) : Ratio :=
  if 0 ≤ n then b.pow n.toNat else (b.pow n.natAbs).inverse

/-- The integer part of an exponent carried out, and what remains. -/
def splitRoot (b e : Ratio) : Ratio × List (Ratio × Ratio) :=
  let whole := e.floor
  let rest := e.add (.ofInt (-whole))
  (ratioPower b whole, if rest.num = 0 then [] else [(b, rest)])

/-- Bases of like exponents joined, and integer parts of exponents carried out. -/
def joinRoots (roots : List (Ratio × Ratio)) : Ratio × List (Ratio × Ratio) :=
  let insert (all : List (Ratio × Ratio)) (p : Ratio × Ratio) : List (Ratio × Ratio) :=
    if all.any fun q => q.1 = p.2 then all.map fun q => if q.1 = p.2 then (q.1, q.2.mul p.1) else q
    else all ++ [(p.2, p.1)]
  (roots.foldl insert []).foldl
    (fun acc p =>
      let (c, rest) := splitRoot p.2 p.1
      (acc.1.mul c, acc.2 ++ rest))
    (.ofInt 1, [])

/-- Takes the common divisor of a base with others out of all of them.  The result is the number that comes
out, what is left of the base, the other roots, and new roots. -/
def extractCommon (e : Ratio) :
    Ratio → List (Ratio × Ratio) → Ratio × Ratio × List (Ratio × Ratio) × List (Ratio × Ratio)
  | b, [] => (.ofInt 1, b, [], [])
  | b, (c, d) :: rest =>
    let g := ratioGcd b c
    if b = .ofInt 1 || g = .ofInt 1 then
      let (out, left, others, new) := extractCommon e b rest
      (out, left, (c, d) :: others, new)
    else
      let (whole, root) := splitRoot g (e.add d)
      let (out, left, others, new) := extractCommon e (b.mul g.inverse) rest
      (whole.mul out, left, (c.mul g.inverse, d) :: others, root ++ new)

/-- Roots as factors with bases that share no divisor, and the constant that comes out. -/
def separateRoots (r : Reducer) : Nat → List (Ratio × Ratio) → List Form
  | 0, roots => roots.map fun (b, e) => .power (.ratio b) (.ratio e)
  | _, [] => []
  | fuel + 1, (b, e) :: rest =>
    let (out, left, others, new) := extractCommon e b rest
    let here := if left = .ofInt 1 then [] else (r.raise (.ratio left) (.ratio e)).factors
    .ratio out :: here ++ separateRoots r fuel (others ++ new)

/-- Powers of like exponents among roots joined. -/
def joinExponents (r : Reducer) (fs : List Form) : List (Form × Form) :=
  let insert (all : List (Form × List Form)) (f : Form) : List (Form × List Form) :=
    match f with
    | .power b e =>
      if all.any fun q => q.1.same e then
        all.map fun q => if q.1.same e then (q.1, q.2 ++ [b]) else q
      else all ++ [(e, [b])]
    | _ => all
  (fs.foldl insert []).map fun (e, bs) => (r.multiply bs, e)

/-- The power of minus one that is left after its integer part is carried out: a sign, and factors, or a sign
of one of the other roots. -/
def turnFactors (turns : Ratio) (roots : List (Form × Form)) : Bool × List Form × List (Form × Form) :=
  let whole := turns.floor
  let rest := turns.add (.ofInt (-whole))
  let negative := whole % 2 = 1
  if rest.num = 0 then (negative, [], roots)
  else if rest.den = 2 then (negative, [.imaginary], roots)
  else if roots.any fun p => p.2.same (.ratio rest) then
    (negative, [], roots.map fun p => if p.2.same (.ratio rest) then (p.1.opposite, p.2) else p)
  else (negative, [.power (.int (-1)) (.ratio rest)], roots)

/-! ## The product -/

/-- An infinite number takes in factors of known sign. -/
def absorbSigns (c : Coefficient) (fs : List Form) : Coefficient × List Form :=
  fs.foldl
    (fun acc f =>
      let known := f.facts
      if known.isPositive then acc
      else if known.isNegative then (acc.1.neg, acc.2)
      else (acc.1, acc.2 ++ [f]))
    (c, [])

/-- A number with factors in order; a finite number times a single sum is distributed. -/
def withConstant (r : Reducer) (c : Form) (fs : List Form) : Form :=
  match fs with
  | [] => c
  | fs =>
    if c.isInt 1 then ofFactors fs
    else
      match c.number?, fs with
      | some n, [.sum ts] =>
        if n.isFinite then r.add (ts.map fun t => r.multiply [c, t]) else .product (c :: fs)
      | _, fs => .product (c :: fs)

/-- The product of a constant and factors that hold no product. -/
def finishProduct (r : Reducer) (constant : Form) (fs : List Form) : Form :=
  match constant.number? with
  | none =>
    if constant.same .complexInfinity then
      withConstant r constant
        (inOrder (fs.filter fun f => f.facts.zero || !f.facts.decidesReal))
    else constant
  | some .undefined => .undefined
  | some .infinity =>
    let (c, rest) := absorbSigns .infinity fs
    withConstant r c.form (inOrder rest)
  | some .negativeInfinity =>
    let (c, rest) := absorbSigns .negativeInfinity fs
    withConstant r c.form (inOrder rest)
  | some c =>
    if c.isZero then (if fs.any fun f => f.facts.finite = some false then .undefined else constant)
    else withConstant r constant (inOrder fs)

/-- The reduced product of at least two forms. -/
def collectFactors (r : Reducer) (fs : List Form) : Form :=
  let h := harvest r (4 * sizeAll fs + 16) .start fs
  match raiseAll r 1 (gather r h.powers) with
  | none => .undefined
  | some raised =>
    let (whole, roots) := joinRoots h.roots
    let separated := separateRoots r (roots.length * roots.length + 8) roots
    let (negative, turned, kept) := turnFactors h.turns (joinExponents r separated)
    let all :=
      raised ++ joinNumeric r (gather r h.numericPowers) ++ separated.filter isConstant ++ turned ++
        kept.map fun p => r.raise p.1 p.2
    let flat := all.flatMap factors
    let sign : Form := .int (if negative then -1 else 1)
    let constant :=
      (flat.filter isConstant).foldl multiplyConstants
        (multiplyConstants h.constant (multiplyConstants sign (.ratio whole)))
    finishProduct r constant (flat.filter fun f => !f.isConstant)

/-- The reduced product of two forms if one is a ratio and the other a multiple of a sum: a ratio times a sum
is distributed, a ratio times a multiple of a sum only changes the number. -/
def distributed? (r : Reducer) (a b : Form) : Option Form :=
  match a with
  | .ratio q =>
    if q.num = 0 then none
    else
      match b.splitCoefficient with
      | (c, .sum ts) =>
        if c.isOne then some (r.add (ts.map (r.scale (.ratio q))))
        else
          let d := c.mul (.ratio q)
          some (if d.isOne then .sum ts else .product [d.form, .sum ts])
      | _ => none
  | _ => none

/-- The reduced product of forms. -/
def reducedProduct (r : Reducer) (fs : List Form) : Form :=
  match fs.filter fun f => !f.isInt 1 with
  | [] => .int 1
  | [f] => f
  | [a, b] =>
    let quick :=
      match b with
      | .ratio _ => distributed? r b a
      | _ => distributed? r a b
    quick.getD (collectFactors r [a, b])
  | fs => collectFactors r fs

end ExprCalculus.Form
