import ExprCalculus.Form.Order

/-!
# How forms are written

Terms and factors are written in order.  A factor with a negative exponent is written below a stroke, a term
with a negative coefficient after a minus sign, and powers with two stars.  Machine numbers are written with
fifteen digits, without zeros at the end unless they stand alone.
-/

namespace ExprCalculus

/-- The text of a constant. -/
def Constant.text (c : Constant) : String := (Form.constant c).atomText

namespace Form

/-! ## Machine numbers -/

/-- The number of digits of a machine number. -/
def shownDigits : Nat := 15

/-- The digits without zeros at the end, but with one after the point. -/
def stripZeros (ds : List Char) : List Char :=
  let kept := (ds.reverse.dropWhile (· == '0')).reverse
  if kept.getLast? = some '.' then kept ++ ['0'] else kept

/-- The digits of a positive quotient, rounded half up, and the exponent of the first one. -/
def roundedDigits (num den : Nat) : Nat × Int :=
  let lead := Decimal.leadingExponent num den
  let (n, d) := Decimal.scaleDown num den (lead + 1 - shownDigits)
  let digits := (2 * n + d) / (2 * d)
  if digits = tenPow shownDigits then (tenPow (shownDigits - 1), lead + 1) else (digits, lead)

/-- The text of a machine number.  From a hundred-thousandth to below ten to the fifteenth it has no
exponent. -/
def floatText (strip : Bool) (x : Float) : String :=
  match Dyadic.ofFloat? x with
  | none => Decimal.floatText x
  | some d =>
    if d.mantissa = 0 then "0.0"
    else
      let (digits, lead) :=
        roundedDigits (d.mantissa * twoPow d.exponent.toNat) (twoPow (-d.exponent).toNat)
      let plain : Bool := -5 < lead && lead < shownDigits
      let ds := Nat.toDigits 10 digits
      let ds := if plain && lead < 0 then List.replicate (-lead).toNat '0' ++ ds else ds
      let split := if plain && 0 ≤ lead then lead.toNat + 1 else 1
      let body := ds.take split ++ '.' :: ds.drop split
      let body := if strip then stripZeros body else body
      let tail :=
        if plain then "" else "e" ++ (if lead < 0 then "-" else "+") ++ Nat.repr lead.natAbs
      (if d.negative then "-" else "") ++ String.ofList body ++ tail

/-! ## Strength -/

/-- How tightly the text of a form holds together. -/
inductive Strength where
  | sum
  | product
  | power
  | atom
  deriving DecidableEq

/-- The place of a strength, looser ones first. -/
def Strength.place : Strength → Nat
  | .sum => 0
  | .product => 1
  | .power => 2
  | .atom => 3

/-- A text with its strength. -/
structure Written where
  text : String
  strength : Strength

/-- The text, between parentheses unless it holds together more tightly than asked. -/
def Written.above (w : Written) (s : Strength) : String :=
  if w.strength.place ≤ s.place then "(" ++ w.text ++ ")" else w.text

/-- A form without parts as it is written. -/
def writtenAtom (f : Form) : Written :=
  match f with
  | .ratio q => ⟨f.atomText, if q.isNegative then .sum else if q.den = 1 then .atom else .product⟩
  | .float x => ⟨floatText true x, if x < 0 then .sum else .atom⟩
  | .constant .negativeInfinity => ⟨f.atomText, .sum⟩
  | f => ⟨f.atomText, .atom⟩

/-! ## Sums, products, powers -/

/-- The texts joined by signs; a text that starts with a minus sign brings its own. -/
def joinTerms : List String → String
  | [] => ""
  | t :: ts =>
    ts.foldl
      (fun out s =>
        match s.toList with
        | '-' :: rest => out ++ " - " ++ String.ofList rest
        | _ => out ++ " + " ++ s) t

/-- Texts joined by stars, between parentheses if there are several. -/
def belowStroke : List String → String
  | [s] => s
  | ss => "(" ++ "*".intercalate ss ++ ")"

/-- A power, from its parts as they are written. -/
def writtenPower (base exponent : Written) (e : Form) : Written :=
  let text :=
    match e with
    | .ratio ⟨1, 2⟩ => "sqrt(" ++ base.text ++ ")"
    | .ratio ⟨-1, 2⟩ => "1/sqrt(" ++ base.text ++ ")"
    | .ratio ⟨-1, 1⟩ => "1/" ++ base.above .power
    | _ => base.above .power ++ "**" ++ exponent.above .power
  ⟨text, .power⟩

/-- The factors of a form above and below the stroke. -/
def splitStroke (f : Form) : List Form × List Form :=
  match f with
  | .ratio q =>
    ((if q.num = 1 then [] else [.int q.num]), if q.den = 1 then [] else [.int q.den])
  | .power b e =>
    if e.isInt (-1) then ([], [b])
    else if e.splitCoefficient.1.isNegative then ([], [.power b e.opposite])
    else ([f], [])
  | f => ([f], [])

/-- A product of factors in order, given how factors are written.  The sign of a negative number stands in
front. -/
def writtenProduct (write : Form → Written) (fs : List Form) : Written :=
  let (c, rest) := splitCoefficient (.product fs)
  let positive := if c.isNegative then ofFactors (withNumber c.neg rest.factors) else .product fs
  let parts := (sortFactors positive.factors).map splitStroke
  let above := parts.flatMap (·.1)
  let below := parts.flatMap (·.2)
  let shown (g : Form) : String := (write g).above .product
  let numerator := if above.isEmpty then "1" else "*".intercalate (above.map shown)
  let text := if below.isEmpty then numerator else numerator ++ "/" ++ belowStroke (below.map shown)
  if c.isNegative then ⟨"-" ++ text, .sum⟩ else ⟨text, .product⟩

/-- A form of at most the given number of levels as it is written. -/
def writtenUpTo : Nat → Form → Written
  | 0, f => f.writtenAtom
  | levels + 1, f =>
    let write := writtenUpTo levels
    let list (fs : List Form) : String := ", ".intercalate (fs.map fun g => (write g).text)
    match f with
    | .sum ts =>
      ⟨joinTerms ((sortTerms ts).map fun t =>
        match t with
        | .sum _ => "(" ++ (write t).text ++ ")"
        | t => (write t).text), .sum⟩
    | .product fs => writtenProduct write fs
    | .power b e => writtenPower (write b) (write e) e
    | .modulo a b => ⟨"Mod(" ++ list [a, b] ++ ")", .atom⟩
    | .apply fn a => ⟨fn.formName ++ "(" ++ list [a] ++ ")", .atom⟩
    | .unknown name as => ⟨name ++ "(" ++ list as ++ ")", .atom⟩
    | .finiteSet a => ⟨"\x7b" ++ list [a] ++ "\x7d", .atom⟩
    | .matrix rows =>
      ⟨"Matrix([" ++ ", ".intercalate (rows.map fun g => "[" ++ (write g).text ++ "]") ++ "])", .atom⟩
    | .interval a b => ⟨"Interval(" ++ list [a, b] ++ ")", .atom⟩
    | .emptySet => ⟨"EmptySet", .atom⟩
    | f => f.writtenAtom

/-- A form as it is written.  Each level takes at most two steps. -/
def written (f : Form) : Written := writtenUpTo (2 * f.size + 2) f

/-- The text of a form that stands alone. -/
def aloneText (f : Form) : String :=
  match f with
  | .float x => floatText false x
  | f => f.written.text

/-- The text of a form.  Rows and bounds stand alone. -/
def text (f : Form) : String :=
  match f with
  | .matrix rows =>
    "Matrix([" ++ ", ".intercalate (rows.map fun g => "[" ++ g.aloneText ++ "]") ++ "])"
  | .interval a b => "Interval(" ++ a.aloneText ++ ", " ++ b.aloneText ++ ")"
  | f => f.aloneText

end Form

end ExprCalculus
